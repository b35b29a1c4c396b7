import LineEditor.Proofs.Engine
import LineEditor.Proofs.Plan

/-!
# Transactions

What one line of input does to the engine. Refused, it leaves everything but a few notes unaltered;
otherwise, if it changed the text, the undo record tells how the window looked before. Between the
record and the end of the line, work in the current window keeps what lies beside it.
-/

namespace LineEditor

theorem Edit.Fits.mono {change : Edit} {size size' : Nat} (h : change.Fits size) (hs : size ≤ size') :
    change.Fits size' := by
  cases change with
  | insert after lines => exact Nat.le_trans h hs
  | delete start stop => exact ⟨h.1, h.2.1, Nat.le_trans h.2.2 hs⟩
  | replace start stop lines => exact ⟨h.1, h.2.1, Nat.le_trans h.2.2 hs⟩
  | copy start stop after => exact ⟨h.1, h.2.1, Nat.le_trans h.2.2.1 hs, Nat.le_trans h.2.2.2 hs⟩
  | move start stop after =>
    exact ⟨h.1, h.2.1, Nat.le_trans h.2.2.1 hs, Nat.le_trans h.2.2.2.1 hs, h.2.2.2.2⟩
  | revise changes => exact fun c hc => ⟨(h c hc).1, Nat.le_trans (h c hc).2.1 hs, (h c hc).2.2⟩

namespace Engine

/-- A command is to be run: no text is being typed. -/
structure Idle (e : Engine) : Prop extends e.Steady where
  untyped : e.entry = none

/-- A command is to be run, and no warning of unsaved edits is in force. -/
structure Ready (e : Engine) : Prop extends e.Idle where
  calm : e.quitArmed = false

/-! ## Refused commands -/

/-- What a refused command may leave behind: other texts remembered, a warning given or withdrawn, a
request to stop that was heeded, and a text that is no longer typed. -/
structure Unaltered (e e' : Engine) : Prop where
  eq : e' = { e.withRecall e'.remembered with quitArmed := e'.quitArmed, entry := e'.entry }
  entry_eq : e'.entry = e.entry ∨ e'.entry = none
  heeded : e'.interrupted = true → e.interrupted = true

/-- Only the notes of a query are new. -/
def Recalled (e e' : Engine) : Prop :=
  ∃ r, e' = e.withRecall r ∧ (r.interrupted = true → e.interrupted = true)

/-- How an operation may come out that is refused or done as a whole. -/
def Moves (e : Engine) : Post Engine α
  | .ok _, e' => e'.Steady ∧ (e.entry = none → e'.entry = none)
  | .error err, e' => e' = e ∧ err.isPartial = false

section
variable {e e' e'' : Engine}

theorem Unaltered.refl (e : Engine) : e.Unaltered e := ⟨rfl, .inl rfl, id⟩

theorem Unaltered.trans (h : e.Unaltered e') (h' : e'.Unaltered e'') : e.Unaltered e'' where
  eq := by
    have hstep : { e'.withRecall e''.remembered with
        quitArmed := e''.quitArmed, entry := e''.entry } =
        { e.withRecall e''.remembered with quitArmed := e''.quitArmed, entry := e''.entry } := by
      rw [h.eq]
      rfl
    exact h'.eq.trans hstep
  entry_eq := by
    rcases h'.entry_eq with he | he
    · rw [he]
      exact h.entry_eq
    · exact .inr he
  heeded := h.heeded ∘ h'.heeded

theorem Recalled.unaltered (h : e.Recalled e') : e.Unaltered e' := by
  obtain ⟨r, rfl, hi⟩ := h
  exact ⟨rfl, .inl rfl, hi⟩

/-- The invariant is about nothing that a refused command changes. -/
theorem Unaltered.sound (h : e.Unaltered e') (he : e.Sound) (hn : e'.entry = none) : e'.Sound := by
  have heq := h.eq
  rw [hn] at heq
  rw [heq]
  exact ⟨⟨he.vacant, he.accounts⟩, he.consistent, he.below, he.record, he.others, by simp⟩

theorem Unaltered.idle (h : e.Unaltered e') (he : e.Idle) : e'.Idle := by
  have hn : e'.entry = none := h.entry_eq.elim (fun heq => heq.trans he.untyped) id
  refine ⟨⟨h.sound he.toSound hn, ?_⟩, hn⟩
  rw [h.eq]
  exact he.unmarked

theorem Recalled.ready (h : e.Recalled e') (he : e.Ready) : e'.Ready := by
  refine ⟨h.unaltered.idle he.toIdle, ?_⟩
  obtain ⟨r, rfl, -⟩ := h
  exact he.calm

theorem Held.readable (h : e.Held) : e.view.Readable := by
  intro x hx
  have hmem : x.content ∈ e.contents :=
    Multiset.mem_add.mpr (.inl (LineMap.mem_contents.mpr ⟨x, hx, rfl⟩))
  obtain ⟨text, hget, -⟩ := h.accounts.get hmem
  exact ⟨text, hget, trivial⟩

/-! ## Work in the current window -/

/-- What stands beside the current window and the pool. -/
def aside (e : Engine) :=
  (e.slot, e.session.below, e.session.undo, e.others, e.limits, e.nextWindow, e.entry, e.quitArmed)

/-- The current window was worked in; what stands beside it is the same and keeps its lines. -/
structure Worked (e e' : Engine) : Prop where
  sound : e'.Sound
  aside_eq : e'.aside = e.aside
  id_eq : e'.window.id = e.window.id
  keeps : e.pool.Keeps e'.pool (e.beside.map Prod.fst)
  unmarked : e.window.lines.Unmarked → e'.window.lines.Unmarked

theorem beside_eq_of_aside (h : e'.aside = e.aside) : e'.beside = e.beside := by
  simp only [aside, Prod.mk.injEq] at h
  obtain ⟨-, hbelow, hundo, hothers, -⟩ := h
  simp only [beside, elsewhere, Session.beneath, hbelow, hundo, hothers]

theorem Worked.trans (h : e.Worked e') (h' : e'.Worked e'') : e.Worked e'' where
  sound := h'.sound
  aside_eq := h'.aside_eq.trans h.aside_eq
  id_eq := h'.id_eq.trans h.id_eq
  keeps := by
    have hk := h'.keeps
    rw [beside_eq_of_aside h.aside_eq] at hk
    exact h.keeps.trans hk
  unmarked := h'.unmarked ∘ h.unmarked

theorem Worked.untyped (h : e.Worked e') (hn : e.entry = none) : e'.entry = none := by
  have haside := h.aside_eq
  simp only [aside, Prod.mk.injEq] at haside
  exact haside.2.2.2.2.2.2.1.trans hn

theorem Worked.limits_eq (h : e.Worked e') : e'.limits = e.limits := by
  have haside := h.aside_eq
  simp only [aside, Prod.mk.injEq] at haside
  exact haside.2.2.2.2.1

theorem Worked.refl (h : e.Sound) : e.Worked e := ⟨h, rfl, rfl, .refl _ _, id⟩

theorem Worked.steady (h : e.Worked e') (he : e.Steady) : e'.Steady := ⟨h.sound, h.unmarked he.unmarked⟩

theorem EntryFits.of_le {t : TextEntry} (h : e.EntryFits t) {w : Window} (p : Pool)
    (hid : w.id = e.window.id) (hdol : e.window.dol ≤ w.dol) :
    EntryFits { e.setWindow w with pool := p } t :=
  ⟨h.window_eq.trans hid.symm, Nat.le_trans h.after_le hdol, h.fits.mono hdol, h.calm⟩

theorem Sound.worked (h : e.Sound) {w : Window} {p : Pool}
    (hed : Edited e.window e.pool e.beside w p) (hdol : e.entry = none ∨ e.window.dol ≤ w.dol) :
    e.Worked { e.setWindow w with pool := p } where
  sound :=
    { vacant := h.vacant
      accounts := hed.accounts
      consistent := hed.consistent
      below := h.below
      record := h.record
      others := h.others
      entry := fun t ht => by
        rcases hdol with hn | hdol
        · have hnone : (none : Option TextEntry) = some t := hn ▸ ht
          cases hnone
        · exact (h.entry t ht).of_le p hed.alike.id_eq hdol }
  aside_eq := rfl
  id_eq := hed.alike.id_eq
  keeps := hed.keeps
  unmarked := hed.unmarked

theorem Sound.of_window (h : e.Sound) {w : Window} (hid : w.id = e.window.id)
    (hc : w.Consistent) (hl : w.lines.contents = e.window.lines.contents) :
    (e.setWindow w).Sound where
  vacant := h.vacant
  accounts := by
    have ha := h.accounts
    unfold contents at ha
    rw [← hl] at ha
    exact ha
  consistent := hc
  below := h.below
  record := h.record
  others := h.others
  entry t ht := by
    have hcard := congrArg Multiset.card hl
    simp only [LineMap.contents, Multiset.coe_card, List.length_map] at hcard
    exact (h.entry t ht).of_le e.pool hid (Nat.le_of_eq hcard.symm)

theorem Sound.worked_window (h : e.Sound) {w : Window} (hid : w.id = e.window.id)
    (hc : w.Consistent) (hl : w.lines.contents = e.window.lines.contents)
    (hu : e.window.lines.Unmarked → w.lines.Unmarked) : e.Worked (e.setWindow w) :=
  ⟨h.of_window hid hc hl, rfl, hid, .refl _ _, hu⟩

theorem Sound.worked_note (h : e.Sound) {w : Window} (hid : w.id = e.window.id)
    (hdot : w.dot = e.window.dot) (hlabels : w.labels = e.window.labels)
    (hlines : w.lines = e.window.lines) : e.Worked (e.setWindow w) := by
  refine h.worked_window hid ?_ (by rw [hlines]) (by rw [hlines]; exact id)
  unfold Window.Consistent Window.dol
  rw [hdot, hlabels, hlines]
  exact h.consistent

theorem Recalled.worked (h : e.Recalled e') (he : e.Sound) (hn : e.entry = none) : e.Worked e' := by
  have hsound : e'.Sound := by
    refine h.unaltered.sound he ?_
    obtain ⟨r, rfl, -⟩ := h
    exact hn
  obtain ⟨r, rfl, -⟩ := h
  exact ⟨hsound, rfl, rfl, .refl _ _, id⟩

end

end Engine

namespace EditM

section
variable {e : Engine}

theorem run_query (q : View → Query α) (e : Engine) : (query q).run.run e =
    ((q e.view).run.run e.remembered >>= fun r => pure (r.1, e.withRecall r.2)) := rfl

theorem run_attempt (x : EditM α) (e : Engine) :
    (attempt x).run.run e = (x.run.run e >>= fun r => pure (.ok r.1, r.2)) := rfl

theorem ends_query {q : View → Query α} {post : Post Engine α} :
    Ends (query q) e post ↔
      Ends (q e.view) e.remembered fun answer r => post answer (e.withRecall r) := by
  unfold Ends
  rw [run_query, Succeeds.bind_iff]
  simp only [Succeeds.pure_iff]

theorem query_ends {q : View → Query α} {P : α → Prop} (hq : (q e.view).Yields P) :
    Ends (query q) e fun answer e' => e.Recalled e' ∧ Answers answer P :=
  ends_query.mpr ((hq e.remembered).mono fun _ r hr => ⟨⟨r, rfl, hr.1⟩, hr.2⟩)

theorem ends_modifyWindow_bind {g : Window → Window} {f : Unit → EditM β} {post : Post Engine β} :
    Ends (modifyWindow g >>= f) e post ↔ Ends (f ()) (e.setWindow (g e.window)) post :=
  ends_modify_bind

theorem onWindow_ends (h : e.Sound) {f : Window → Pool → Except Breach (Window × Pool)}
    (hf : Succeeds (f e.window e.pool) fun r =>
      Edited e.window e.pool e.beside r.1 r.2 ∧ (e.entry = none ∨ e.window.dol ≤ r.1.dol)) :
    Ends (onWindow f) e (.sure fun _ e' => e.Worked e') := by
  unfold onWindow
  rw [ends_get_bind]
  simp only [ends_bind, ends_lift, Post.after_ok, ends_set]
  exact hf.mono fun r hr => h.worked hr.1 hr.2

theorem onWindow_grows (h : e.Sound) {f : Window → Pool → Except Breach (Window × Pool)}
    (hf : Succeeds (f e.window e.pool) fun r =>
      Edited e.window e.pool e.beside r.1 r.2 ∧ e.window.dol ≤ r.1.dol) :
    Ends (onWindow f) e (.sure fun _ e' => e.Worked e') :=
  onWindow_ends h (hf.mono fun _ hr => ⟨hr.1, .inr hr.2⟩)

theorem noteEdit_worked (h : e.Sound) : e.Worked (e.setWindow e.window.noteEdit) := by
  refine h.worked_note ?_ ?_ ?_ ?_
  all_goals unfold Window.noteEdit; split <;> rfl

theorem goto_ends (h : e.Sound) (hn : e.entry = none) {n : Nat} (h₁ : 1 ≤ n)
    (hdol : n ≤ e.window.dol) : Ends (goto n) e (.sure fun _ e' => e.Worked e') := by
  refine onWindow_ends h ?_
  rw [Window.goto_of_le hdol]
  simp only [Succeeds.bind_iff, Succeeds.ok_iff, Succeeds.pure_iff]
  exact ⟨(Edited.refl h.consistent h.accounts).setDot h₁ hdol, .inl hn⟩

end

end EditM

end LineEditor
