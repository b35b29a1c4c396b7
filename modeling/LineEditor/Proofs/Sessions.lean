import LineEditor.Proofs.Transaction

/-!
# Sessions and windows

Seen from the table of all sessions, switching changes nothing and a new session adds none of the
stored lines; what is closed or dropped gives its lines back. A text being typed is given up with
its window, except that a session may move to another slot while it is typed.
-/

namespace LineEditor

namespace Session

section
variable {p : Pool} {m : Multiset (Handle × Option Suffix)}

theorem releaseWindows_accounts : ∀ (ws : List Window) {p : Pool},
    p.Accounts ((ws.map fun w => w.lines.contents).sum + m) →
    Succeeds (releaseWindows p ws) fun r => r.1.Accounts m ∧ p.Keeps r.1 (m.map Prod.fst)
  | [], p, ha => by
    rw [List.map_nil, List.sum_nil, zero_add] at ha
    exact Succeeds.pure_iff.mpr ⟨ha, .refl _ _⟩
  | w :: rest, p, ha => by
    rw [List.map_cons, List.sum_cons, add_assoc] at ha
    unfold releaseWindows Window.release LineMap.release
    simp only [Succeeds.bind_iff, Succeeds.pure_iff]
    exact ha.drop.mono fun r hr => (releaseWindows_accounts rest hr.1).mono fun q hq =>
      ⟨hq.1, hr.2.right.trans hq.2⟩

theorem release_accounts {s : Session} (ha : p.Accounts (s.contents + m)) :
    Succeeds (s.release p) fun r => r.1.Accounts m ∧ p.Keeps r.1 (m.map Prod.fst) := by
  have hundo : p.Accounts (s.undo.contents + ((s.current.lines.contents + s.beneath) + m)) := by
    refine Eq.mp (congrArg _ ?_) ha
    unfold contents
    abel
  unfold release
  simp only [Succeeds.bind_iff]
  refine (UndoSlot.discard_accounts hundo).mono fun r hr => ?_
  obtain ⟨-, hwindows, hkeeps⟩ := hr
  rw [← windows_contents] at hwindows
  exact (releaseWindows_accounts s.windows hwindows).mono fun q hq =>
    ⟨hq.1, hkeeps.right.trans hq.2⟩

end

end Session

namespace Engine

/-- A new window, still empty, is current. -/
structure Opened (e e' : Engine) : Prop extends e'.Idle where
  dol_eq : e'.window.dol = 0
  limits_eq : e'.limits = e.limits

section
variable {e e' : Engine} {n : Nat} {s : Session}

/-- A session made current, with the others in a table from which it was taken. -/
theorem held_of_take {t : SessionTable} (hs : t.get? n = some s) (ha : e'.pool.Accounts t.contents)
    (hslot : e'.slot = n) (hsession : e'.session = s) (hothers : e'.others = t.put n none) :
    e'.Held := by
  subst hslot hsession
  obtain ⟨h₁, hmax⟩ := SessionTable.slot_of_get? hs
  rw [SessionTable.contents_take hs, ← hothers] at ha
  refine held_of_sessions ?_ ha
  rw [hothers]
  exact SessionTable.vacant_put_none h₁ hmax

theorem Held.steady_of_take (h : e'.Held) {t : SessionTable} (hs : t.get? n = some s)
    (ht : ∀ s ∈ t.sessions, s.Settled) (hsession : e'.session = s) (hothers : e'.others = t.put n none)
    (hn : e'.entry = none) : e'.Steady := by
  subst hsession
  have hperm := SessionTable.take_perm hs
  refine h.steady (ht _ (hperm.mem_iff.mpr List.mem_cons_self)) ?_ hn
  rw [hothers]
  exact fun s hmem => ht s (hperm.mem_iff.mpr (List.mem_cons_of_mem _ hmem))

theorem Held.table_get? (h : e.Held) : e.table.get? e.slot = some e.session :=
  SessionTable.get?_put_self h.vacant.1 h.vacant.2.1 _

theorem Held.switch (h : e.Held) (hs : e.table.get? n = some s) : (e.makeCurrent n s).Held := by
  have ha := h.accounts
  rw [← h.table_contents] at ha
  exact held_of_take hs ha rfl rfl rfl

theorem Held.switch_new (h : e.Held) (h₁ : 1 ≤ n) (hn : n ≤ e.table.max)
    (hs : e.table.get? n = none) (flags : WindowFlags) :
    ((e.newWindow flags).2.makeCurrent n (.ofWindow (e.newWindow flags).1)).Held := by
  refine held_of_sessions (SessionTable.vacant_put_none h₁ hn) ?_
  show e.pool.Accounts ((Session.ofWindow (.empty e.nextWindow flags)).contents +
    (e.table.put n none).contents)
  rw [SessionTable.put_self hs, h.table_contents, Session.contents_ofWindow]
  simpa [Window.empty] using h.accounts

/-- A session may move while text is typed in it. -/
theorem Held.move (h : e.Held) (h₁ : 1 ≤ n) (hn : n ≤ e.table.max) (hs : e.table.get? n = none) :
    Held { e with slot := n } := by
  have hne : n ≠ e.slot := by
    rintro rfl
    rw [h.table_get?] at hs
    cases hs
  refine ⟨⟨h₁, ?_, ?_⟩, h.accounts⟩
  · rwa [← SessionTable.max_put e.others e.slot (some e.session)]
  · rwa [← SessionTable.get?_put_of_ne e.others (some e.session) hne]

theorem Held.push (h : e.Held) (flags : WindowFlags) :
    Held { (e.newWindow flags).2 with
      session := e.session.push (e.newWindow flags).1, entry := none } := by
  have ha := h.accounts
  rw [contents_eq_session] at ha
  refine held_of_sessions h.vacant (Eq.mp (congrArg _ ?_) ha)
  simp only [Engine.newWindow, Session.push, Session.contents, Session.beneath, Window.empty,
    List.map_cons, List.sum_cons, LineMap.contents_nil]
  abel

/-- The current window goes, and its record with it. -/
theorem Held.dropWindow (h : e.Held) :
    Succeeds (e.session.undo.discardFor e.window.id e.pool) fun r =>
      Succeeds (e.window.release r.2) fun q =>
        (∀ r', r.1.record = some r' → e.session.undo.record = some r' ∧ r'.window ≠ e.window.id) ∧
          q.1.Accounts (r.1.contents + e.elsewhere) ∧
          e.pool.Keeps q.1 ((r.1.contents + e.elsewhere).map Prod.fst) := by
  have ha := h.accounts
  have hswap : e.contents = e.session.undo.contents + (e.window.lines.contents + e.elsewhere) := by
    unfold Engine.contents Engine.beside
    abel
  rw [hswap] at ha
  refine (UndoSlot.discardFor_accounts e.window.id ha).mono fun r ⟨hrec, hacc, hkeeps⟩ => ?_
  have hback : r.1.contents + (e.window.lines.contents + e.elsewhere) =
      e.window.lines.contents + (r.1.contents + e.elsewhere) := by abel
  rw [hback] at hacc hkeeps
  exact hacc.drop.mono fun q hq => ⟨hrec, hq.1, hkeeps.right.trans hq.2⟩

theorem Held.replace (h : e.Held) {undo : UndoSlot} {p : Pool}
    (ha : p.Accounts (undo.contents + e.elsewhere)) (flags : WindowFlags) :
    Held { (e.newWindow flags).2 with
      pool := p
      session := { e.session with current := (e.newWindow flags).1, undo := undo }
      entry := none } := by
  refine held_of_sessions h.vacant (Eq.mp (congrArg _ ?_) ha)
  simp only [Engine.newWindow, Session.contents, Engine.elsewhere, Session.beneath, Window.empty,
    LineMap.contents_nil]
  abel

theorem Held.pop (h : e.Held) {w : Window} {rest : List Window} (hb : e.session.below = w :: rest)
    {undo : UndoSlot} {p : Pool} (ha : p.Accounts (undo.contents + e.elsewhere)) :
    Held { e with
      pool := p
      session := { e.session with current := w, below := rest, undo := undo }
      entry := none } := by
  refine held_of_sessions h.vacant (Eq.mp (congrArg _ ?_) ha)
  simp only [Session.contents, Engine.elsewhere, Session.beneath, hb, List.map_cons, List.sum_cons]
  abel

end

end Engine

namespace EditM

section
variable {e : Engine}

theorem switchSession_ends (h : e.Steady) (n : Nat) : Ends (switchSession n) e e.Moves := by
  unfold switchSession
  rw [ends_get_bind]
  refine (e.table.checkSlot_reads n).then (fun _ ⟨h₁, hn⟩ => ?_) fun _ herr => ⟨rfl, herr⟩
  cases hs : e.table.get? n with
  | some s =>
    simp only [ends_bind, ends_set, Post.after_ok, ends_pure]
    have hheld := h.toHeld.switch hs
    exact ⟨hheld.steady_of_take hs h.table_settled rfl rfl rfl, fun _ => rfl⟩
  | none =>
    simp only [ends_bind, ends_set, Post.after_ok, ends_pure]
    have hheld := h.toHeld.switch_new h₁ hn hs .none
    refine ⟨hheld.steady (Session.settled_ofWindow (Window.settled_empty _ _)) ?_ rfl, fun _ => rfl⟩
    show ∀ s ∈ (e.table.put n none).sessions, s.Settled
    rw [SessionTable.put_self hs]
    exact h.table_settled

theorem closeSession_ends (h : e.Steady) : Ends closeSession e e.Moves := by
  unfold closeSession
  rw [ends_get_bind]
  split
  · exact ends_pure.mpr ⟨h, id⟩
  · rename_i n _ _
    refine (e.others.take_reads n).then (fun r ⟨hs, hothers⟩ => ?_) fun _ herr => ⟨rfl, herr⟩
    have ha := h.accounts
    rw [Engine.contents_eq_session] at ha
    simp only [ends_bind, ends_lift, Post.after_ok, ends_set, ends_pure]
    refine (Session.release_accounts ha).mono fun q hq => ⟨?_, fun _ => rfl⟩
    have hheld : Engine.Held { e with
        pool := q.1, slot := n, session := r.1, others := r.2, entry := none } :=
      Engine.held_of_take hs hq.1 rfl rfl hothers
    exact hheld.steady_of_take hs h.others rfl hothers rfl

theorem moveSession_ends (h : e.Steady) (target : Option Nat) :
    Ends (moveSession target) e e.Moves := by
  have hmove (n : Nat) : Ends (do
      liftExcept (e.table.checkSlot n)
      if e.table.isActive n then throw (.sessionActive n)
      set { e with slot := n }
      return n) e e.Moves := by
    refine (e.table.checkSlot_reads n).then (fun _ ⟨h₁, hn⟩ => ?_) fun _ herr => ⟨rfl, herr⟩
    dsimp only
    split
    · exact ends_throw.mpr ⟨rfl, rfl⟩
    · rename_i hfree
      rw [ends_bind, ends_set, Post.after_ok, ends_pure]
      have hget : e.table.get? n = none := by
        unfold SessionTable.isActive at hfree
        simpa using hfree
      refine ⟨{ h with toHeld := h.toHeld.move h₁ hn hget, entry := ?_ }, id⟩
      intro t ht
      obtain ⟨hid, hafter, hfits, hcalm⟩ := h.entry t ht
      exact ⟨hid, hafter, hfits, hcalm⟩
  unfold moveSession
  rw [ends_get_bind]
  cases target with
  | some n => exact hmove n
  | none =>
    dsimp only
    split
    · exact hmove _
    · exact ends_throw.mpr ⟨rfl, rfl⟩

theorem pushWindow_ends (h : e.Steady) (flags : WindowFlags) :
    Ends (pushWindow flags) e (.sure fun _ e' => e.Opened e') := by
  unfold pushWindow
  rw [ends_get_bind]
  simp only [ends_bind, ends_set, Post.after_ok, ends_pure]
  have hw := Window.settled_empty e.nextWindow flags
  refine ⟨⟨(h.toHeld.push flags).steady ⟨hw, ?_, h.record⟩ h.others rfl, rfl⟩, rfl, rfl⟩
  intro w hmem
  rcases List.mem_cons.mp hmem with rfl | hmem
  · exact ⟨h.consistent, h.unmarked⟩
  · exact h.below w hmem

theorem replaceWindow_ends (h : e.Steady) (flags : WindowFlags) :
    Ends (replaceWindow flags) e (.sure fun _ e' => e.Opened e') := by
  unfold replaceWindow
  rw [ends_get_bind]
  simp only [ends_bind, ends_lift, ends_set, Post.after_ok, ends_pure]
  refine h.toHeld.dropWindow.mono fun r hr => hr.mono fun q hq => ?_
  have hw := Window.settled_empty e.nextWindow flags
  have hheld := h.toHeld.replace hq.2.1 flags
  have hrecord (r' : UndoRecord) (hr' : r.1.record = some r') : r'.Settled := h.record r' (hq.1 r' hr').1
  exact ⟨⟨hheld.steady ⟨hw, h.below, hrecord⟩ h.others rfl, rfl⟩, rfl, rfl⟩

theorem popWindow_ends (h : e.Steady) : Ends popWindow e e.Moves := by
  unfold popWindow
  rw [ends_get_bind]
  cases hb : e.session.below with
  | nil =>
    simp only [Session.pop?, hb]
    exact ends_throw.mpr ⟨rfl, rfl⟩
  | cons w rest =>
    simp only [Session.pop?, hb, ends_bind, ends_lift, ends_set, Post.after_ok]
    refine h.toHeld.dropWindow.mono fun r hr => hr.mono fun q hq => ⟨?_, fun _ => rfl⟩
    have hbelow : ∀ v ∈ w :: rest, v.Settled := hb ▸ h.below
    exact (h.toHeld.pop hb hq.2.1).steady ⟨hbelow w List.mem_cons_self,
      fun v hv => hbelow v (List.mem_cons_of_mem _ hv), fun r' hr' => h.record r' (hq.1 r' hr').1⟩
      h.others rfl

end

end EditM

end LineEditor
