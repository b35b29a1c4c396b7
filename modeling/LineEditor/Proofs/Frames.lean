import LineEditor.Proofs.Dispatch
import LineEditor.Proofs.Recalls

/-!
# What the operations do to an invariant

There are a few ways in which the engine changes apart from new lines: what it remembers, its marks,
records, sessions and windows. A property that holds on through each of them is framed, and the
operations that commands are made of keep it wherever they lead.
-/

namespace LineEditor

/-- The windows differ only in their file names, dot and labels. -/
structure Window.Noted (w w' : Window) : Prop where
  id_eq : w'.id = w.id
  lines_eq : w'.lines = w.lines
  flags_eq : w'.flags = w.flags
  lastSearch_eq : w'.lastSearch = w.lastSearch
  lastReplacement_eq : w'.lastReplacement = w.lastReplacement

theorem Window.noteEdit_eq (w : Window) :
    w.noteEdit = { w with flags.changed := decide (w.mode ≠ .browse) || w.flags.changed } := by
  unfold noteEdit markChanged
  by_cases hb : w.mode = .browse
  · simp [hb]
  · simp [hb]

@[simp] theorem Window.noteEdit_id (w : Window) : w.noteEdit.id = w.id := by rw [noteEdit_eq]

@[simp] theorem Window.noteEdit_lines (w : Window) : w.noteEdit.lines = w.lines := by rw [noteEdit_eq]

@[simp] theorem Window.noteEdit_flags (w : Window) : w.noteEdit.flags =
    { w.flags with changed := decide (w.mode ≠ .browse) || w.flags.changed } := by rw [noteEdit_eq]

theorem Window.noted_setLabel (w : Window) (name : Char) (n : Nat) :
    w.Noted ((w.setLabel name n).getD w) := by
  unfold setLabel
  split
  · exact ⟨rfl, rfl, rfl, rfl, rfl⟩
  · exact ⟨rfl, rfl, rfl, rfl, rfl⟩

theorem Engine.browsing_of_mode {w : Window} (h : w.mode = .normal) : w.flags.browsing = false := by
  unfold Window.mode at h
  split at h
  · cases h
  · split at h
    · cases h
    · rename_i hb
      exact Bool.eq_false_iff.mpr hb

namespace Engine

/-- A new record of the current window, and a pool with its lines. -/
structure Recording (e : Engine) (undo : UndoSlot) (p : Pool) : Prop where
  record_eq : ∃ lines, undo.record = some (UndoSlot.recordOf e.window lines) ∧
    lines.map Entry.content = e.window.lines.map Entry.content
  accounts : p.Accounts (e.window.lines.contents + (undo.contents + e.elsewhere))
  keeps : e.pool.Keeps p ((e.window.lines.contents + e.elsewhere).map Prod.fst)

/-- The engine with its current window recorded. -/
def recorded (e : Engine) (undo : UndoSlot) (p : Pool) : Engine :=
  { e with
    pool := p
    session := { e.session with current := { e.window with flags.hasUndo := true }, undo := undo } }

/-- What is left of the record and in the pool when the current window goes. -/
structure Dropping (e : Engine) (undo : UndoSlot) (p : Pool) : Prop where
  record : ∀ r, undo.record = some r → e.session.undo.record = some r ∧ r.window ≠ e.window.id
  accounts : p.Accounts (undo.contents + e.elsewhere)
  keeps : e.pool.Keeps p ((undo.contents + e.elsewhere).map Prod.fst)

/-- The engine with a new window on top of the current one. -/
def pushed (e : Engine) (flags : WindowFlags) : Engine :=
  { (e.newWindow flags).2 with session := e.session.push (e.newWindow flags).1, entry := none }

/-- The engine with a new window in place of the current one. -/
def replaced (e : Engine) (undo : UndoSlot) (p : Pool) (flags : WindowFlags) : Engine :=
  { (e.newWindow flags).2 with
    pool := p
    session := { e.session with current := (e.newWindow flags).1, undo := undo }
    entry := none }

/-- The engine without its current window; `w` is the next one, and `rest` is beneath it. -/
def popped (e : Engine) (undo : UndoSlot) (p : Pool) (w : Window) (rest : List Window) : Engine :=
  { e with
    pool := p
    session := { e.session with current := w, below := rest, undo := undo }
    entry := none }

/-- The engine without its current session; that of slot `n` is current now. -/
def closed (e : Engine) (n : Nat) (s : Session) (p : Pool) : Engine :=
  { e with pool := p, slot := n, session := s, others := e.others.put n none, entry := none }

section
variable {e : Engine} {undo : UndoSlot} {p : Pool}

theorem pushed_windows (flags : WindowFlags) : (e.pushed flags).session.windows =
    e.session.windows ++ [.empty e.nextWindow flags] := by
  simp [pushed, newWindow, Session.windows, Session.push]

theorem replaced_windows (flags : WindowFlags) : (e.replaced undo p flags).session.windows =
    e.session.below.reverse ++ [.empty e.nextWindow flags] := rfl

theorem popped_windows {w : Window} {rest : List Window} (hb : e.session.below = w :: rest) :
    (e.popped undo p w rest).session.windows = e.session.below.reverse := by
  rw [hb, List.reverse_cons]
  rfl

theorem Recording.rows_eq (h : e.Recording undo p) :
    p.rows e.window.lines = e.pool.rows e.window.lines :=
  Pool.rows_keeps h.keeps fun _ hc => Multiset.mem_add.mpr (.inl hc)

theorem below_contents_subset {w : Window} (hw : w ∈ e.session.below.reverse) :
    w.lines.contents ⊆ e.elsewhere := by
  intro c hc
  have hmem := Session.subset_sum (f := fun w : Window => w.lines.contents) (List.mem_reverse.mp hw) hc
  exact Multiset.mem_add.mpr (.inl hmem)

end

end Engine

namespace EditM

/-! ## What the operations come to -/

section
variable {e : Engine}

theorem undo_outcome (e : Engine) : Leads undo e (orStays e fun _ e' =>
    ∃ r, e.session.undo.record = some r ∧ r.window = e.window.id ∧ e' = e.undone r) := by
  unfold undo
  rw [leads_get_bind]
  cases hr : e.session.undo.record with
  | none =>
    simp only [UndoSlot.undo?, hr]
    exact leads_throw.mpr rfl
  | some r =>
    by_cases hid : r.window = e.window.id
    · simp only [UndoSlot.undo?, hr, hid, if_true, leads_set]
      exact ⟨r, rfl, hid, rfl⟩
    · simp only [UndoSlot.undo?, hr, hid, if_false]
      exact leads_throw.mpr rfl

theorem switchSession_outcome (e : Engine) (n : Nat) :
    Leads (switchSession n) e (orStays e fun _ e' =>
      (∃ s, e.table.get? n = some s ∧ e' = e.makeCurrent n s) ∨
      (1 ≤ n ∧ n ≤ e.table.max ∧ e.table.get? n = none ∧
        e' = (e.newWindow .none).2.makeCurrent n (.ofWindow (e.newWindow .none).1))) := by
  unfold switchSession
  rw [leads_get_bind]
  refine leads_reads (e.table.checkSlot_reads n) (fun _ ⟨h₁, hn⟩ => ?_) fun _ => rfl
  cases hs : e.table.get? n with
  | some s => exact leads_bind.mpr (leads_set.mpr (leads_pure.mpr (.inl ⟨s, rfl, rfl⟩)))
  | none => exact leads_bind.mpr (leads_set.mpr (leads_pure.mpr (.inr ⟨h₁, hn, rfl, rfl⟩)))

theorem closeSession_outcome (h : e.Held) : Leads closeSession e (orStays e fun slot e' =>
    match slot with
    | none => e.others.active = [] ∧ e' = e
    | some n => ∃ s p, e.others.get? n = some s ∧ p.Accounts e.others.contents ∧
        e.pool.Keeps p (e.others.contents.map Prod.fst) ∧ e' = e.closed n s p) := by
  unfold closeSession
  rw [leads_get_bind]
  split
  · rename_i hnone
    exact leads_pure.mpr ⟨hnone, rfl⟩
  · rename_i n _ _
    refine leads_reads (e.others.take_reads n) (fun ⟨s, others⟩ ⟨hs, hothers⟩ => ?_) fun _ => rfl
    dsimp only at hs hothers
    subst hothers
    have ha := h.accounts
    rw [Engine.contents_eq_session] at ha
    obtain ⟨q, hrun, hacc, hkeeps⟩ := Session.release_accounts ha
    dsimp only
    rw [hrun]
    refine leads_bind.mpr (leads_pure.mpr ?_)
    exact leads_bind.mpr (leads_set.mpr (leads_pure.mpr ⟨s, q.1, hs, hacc, hkeeps, rfl⟩))

theorem moveSession_outcome (e : Engine) (target : Option Nat) :
    Leads (moveSession target) e (orStays e fun n e' =>
      1 ≤ n ∧ n ≤ e.table.max ∧ e.table.get? n = none ∧ e' = { e with slot := n }) := by
  have hmove (n : Nat) : Leads (do
      liftExcept (e.table.checkSlot n)
      if e.table.isActive n then throw (.sessionActive n)
      set { e with slot := n }
      return n) e (orStays e fun n e' =>
        1 ≤ n ∧ n ≤ e.table.max ∧ e.table.get? n = none ∧ e' = { e with slot := n }) := by
    refine leads_reads (e.table.checkSlot_reads n) (fun _ ⟨h₁, hn⟩ => ?_) fun _ => rfl
    dsimp only
    split
    · exact leads_throw.mpr rfl
    · rename_i hfree
      have hget : e.table.get? n = none := by
        unfold SessionTable.isActive at hfree
        simpa using hfree
      exact leads_bind.mpr (leads_set.mpr (leads_pure.mpr ⟨h₁, hn, hget, rfl⟩))
  unfold moveSession
  rw [leads_get_bind]
  cases target with
  | some n => exact hmove n
  | none =>
    dsimp only
    split
    · exact hmove _
    · exact leads_throw.mpr rfl

theorem pushWindow_outcome (e : Engine) (flags : WindowFlags) :
    Leads (pushWindow flags) e (.sure fun _ e' => e' = e.pushed flags) := by
  unfold pushWindow
  rw [leads_get_bind]
  exact leads_bind.mpr (leads_set.mpr (leads_pure.mpr rfl))

theorem replaceWindow_outcome (h : e.Held) (flags : WindowFlags) :
    Leads (replaceWindow flags) e
      (.sure fun _ e' => ∃ undo p, e.Dropping undo p ∧ e' = e.replaced undo p flags) := by
  obtain ⟨r, hdiscard, q, hrelease, hr, ha, hk⟩ := h.dropWindow
  unfold replaceWindow
  rw [leads_get_bind]
  show Leads (liftM (e.session.undo.discardFor e.window.id e.pool) >>= _) e _
  rw [hdiscard]
  refine leads_bind.mpr (leads_pure.mpr ?_)
  show Leads (liftM (e.window.release r.2) >>= _) e _
  rw [hrelease]
  refine leads_bind.mpr (leads_pure.mpr ?_)
  exact leads_bind.mpr (leads_set.mpr (leads_pure.mpr ⟨r.1, q.1, ⟨hr, ha, hk⟩, rfl⟩))

theorem popWindow_outcome (h : e.Held) : Leads popWindow e (orStays e fun _ e' =>
    ∃ undo p w rest, e.Dropping undo p ∧ e.session.below = w :: rest ∧
      e' = e.popped undo p w rest) := by
  obtain ⟨r, hdiscard, q, hrelease, hr, ha, hk⟩ := h.dropWindow
  unfold popWindow
  rw [leads_get_bind]
  cases hb : e.session.below with
  | nil =>
    simp only [Session.pop?, hb]
    exact leads_throw.mpr rfl
  | cons w rest =>
    simp only [Session.pop?, hb]
    show Leads (liftM (e.session.undo.discardFor e.window.id e.pool) >>= _) e _
    rw [hdiscard]
    refine leads_bind.mpr (leads_pure.mpr ?_)
    show Leads (liftM (e.window.release r.2) >>= _) e _
    rw [hrelease]
    refine leads_bind.mpr (leads_pure.mpr (leads_set.mpr ?_))
    exact ⟨r.1, q.1, w, rest, ⟨hr, ha, hk⟩, rfl, rfl⟩

end

end EditM

namespace Engine

/-- The property holds on through what is done in the current window without bringing new lines. Text is
begun only in a window that shows neither a page nor a directory. -/
structure Local (I : Engine → Prop) : Prop where
  held : ∀ {e}, I e → e.Held
  remember : ∀ {e}, I e → ∀ r, e.Recalls r → I (e.withRecall r)
  begin : ∀ {e}, I e → e.window.mode = .normal → ∀ after replace,
    I { e with entry := some ⟨e.window.id, after, replace, []⟩ }
  untype : ∀ {e}, I e → I { e with entry := none }
  note : ∀ {e}, I e → ∀ {w}, e.window.Noted w → I (e.setWindow w)
  mark : ∀ {e}, I e → ∀ {l : LineMap}, l.clearMarks = e.window.lines.clearMarks →
    I (e.setWindow { e.window with lines := l })
  record : ∀ {e}, I e → ∀ {undo p}, e.Recording undo p → I (e.recorded undo p)

/-- The property holds on through all that does not bring new lines, if every window that is opened
has flags such as `opens` says. -/
structure Framed (I : Engine → Prop) (opens : WindowFlags → Prop) : Prop extends Local I where
  arm : ∀ {e}, I e → ∀ armed, I { e with quitArmed := armed }
  interrupt : ∀ {e}, I e → I e.interrupt
  save : ∀ {e}, I e → I (e.setWindow { e.window with flags.changed := false })
  undo : ∀ {e}, I e → ∀ {r}, e.session.undo.record = some r → r.window = e.window.id → I (e.undone r)
  switch : ∀ {e}, I e → ∀ {n s}, e.table.get? n = some s → I (e.makeCurrent n s)
  start : ∀ {e}, I e → ∀ {n}, 1 ≤ n → n ≤ e.table.max → e.table.get? n = none →
    I ((e.newWindow .none).2.makeCurrent n (.ofWindow (e.newWindow .none).1))
  move : ∀ {e}, I e → ∀ {n}, 1 ≤ n → n ≤ e.table.max → e.table.get? n = none →
    I { e with slot := n }
  close : ∀ {e}, I e → ∀ {n s p}, e.others.get? n = some s → p.Accounts e.others.contents →
    e.pool.Keeps p (e.others.contents.map Prod.fst) → I (e.closed n s p)
  plain : opens .none
  push : ∀ {e}, I e → ∀ {flags}, opens flags → I (e.pushed flags)
  replace : ∀ {e}, I e → ∀ {undo p}, e.Dropping undo p → ∀ {flags}, opens flags →
    I (e.replaced undo p flags)
  pop : ∀ {e}, I e → ∀ {undo p}, e.Dropping undo p → ∀ {w rest}, e.session.below = w :: rest →
    I (e.popped undo p w rest)

end Engine

namespace EditM

/-- The action keeps the property, wherever it is run. -/
def Maintains (I : Engine → Prop) (x : EditM α) : Prop := ∀ e, I e → Leads x e fun _ e' => I e'

namespace Maintains

section
variable {I : Engine → Prop}

protected theorem pure (a : α) : Maintains I (pure a) := fun _ h => leads_pure.mpr h

protected theorem throw (err : EditError) : Maintains I (throw err : EditM α) :=
  fun _ h => leads_throw.mpr h

protected theorem liftExcept (x : Except EditError α) : Maintains I (liftExcept x) :=
  fun _ h => leads_liftExcept.mpr h

protected theorem lift (y : Except Breach α) : Maintains I (liftM y : EditM α) :=
  fun _ h => leads_lift.mpr fun _ _ => h

protected theorem get : Maintains I get := by
  intro e h answer e' hrun
  cases hrun
  exact h

protected theorem bind {x : EditM α} {f : α → EditM β} (hx : Maintains I x)
    (hf : ∀ a, Maintains I (f a)) : Maintains I (x >>= f) :=
  fun e h => (hx e h).then (fun a e' h' => hf a e' h') fun _ _ h' => h'

protected theorem modify {f : Engine → Engine} (hf : ∀ e, I e → I (f e)) :
    Maintains I (modify f) :=
  fun e h => leads_modify.mpr (hf e h)

protected theorem attempt {x : EditM α} (hx : Maintains I x) : Maintains I (attempt x) :=
  fun e h => leads_attempt.mpr (hx e h)

end

end Maintains

/-! ## The current window -/

section
variable {I : Engine → Prop} (hI : Engine.Local I) {e : Engine}
include hI

theorem maintains_query {q : View → Query α} (hq : ∀ v, (q v).Traces v.window) :
    Maintains I (query q) :=
  fun e h => (query_recalls (hq e.view)).mono fun _ _ ⟨r, hr, heq⟩ => heq ▸ hI.remember h r hr

theorem maintains_note {g : Window → Window} (hg : ∀ w : Window, w.Noted (g w)) :
    Maintains I (modifyWindow g) :=
  .modify fun _ h => hI.note h (hg _)

theorem maintains_goto (n : Nat) : Maintains I (goto n) := by
  intro e h
  unfold goto onWindow
  rw [leads_get_bind, leads_bind, leads_lift]
  intro r hr
  change (e.window.goto n >>= fun w => pure (w, e.pool)) = .ok r at hr
  obtain ⟨w, hw, heq⟩ := bind_eq_ok.mp hr
  cases heq
  unfold Window.goto at hw
  obtain ⟨-, hw⟩ := guarded_eq_ok hw
  cases hw
  exact leads_set.mpr (hI.note h ⟨rfl, rfl, rfl, rfl, rfl⟩)

/-- A record made now shows what the window shows. -/
theorem snapshot_leads (h : I e) : Leads snapshot e fun _ e' =>
    I e' ∧ e'.window = { e.window with flags.hasUndo := true } ∧ e'.limits = e.limits ∧
      e'.pool.rows e.window.lines = e.pool.rows e.window.lines := by
  obtain ⟨⟨u, w, p⟩, hrun, lines, hrec, hcontent, -, hwindow, hacc, hkeeps⟩ :=
    UndoSlot.capture_recorded (hI.held h).accounts
  unfold snapshot
  rw [leads_get_bind, hrun]
  dsimp only at hrec hwindow hacc hkeeps
  subst hwindow
  have hrecording : e.Recording u p := ⟨⟨lines, hrec, hcontent⟩, hacc, hkeeps⟩
  refine leads_bind.mpr (leads_pure.mpr (leads_set.mpr ?_))
  exact ⟨hI.record h hrecording, rfl, rfl, hrecording.rows_eq⟩

theorem maintains_snapshot : Maintains I snapshot :=
  fun _ h => (snapshot_leads hI h).mono fun _ _ h' => h'.1

end

section
variable {I : Engine → Prop} {opens : WindowFlags → Prop} (hI : Engine.Framed I opens) {e : Engine}
include hI

theorem maintains_undo : Maintains I undo :=
  fun e h => (undo_outcome e).maintains h fun _ _ ⟨_, hr, hid, heq⟩ => heq ▸ hI.undo h hr hid

/-! ## Sessions and windows -/

theorem maintains_switchSession (n : Nat) : Maintains I (switchSession n) := by
  intro e h
  refine (switchSession_outcome e n).maintains h fun _ _ hs => ?_
  rcases hs with ⟨s, hs, rfl⟩ | ⟨h₁, hn, hs, rfl⟩
  · exact hI.switch h hs
  · exact hI.start h h₁ hn hs

theorem maintains_closeSession : Maintains I closeSession := by
  intro e h
  refine (closeSession_outcome (hI.held h)).maintains h fun slot e' hclosed => ?_
  cases slot with
  | none => exact hclosed.2 ▸ h
  | some n =>
    obtain ⟨s, p, hs, ha, hk, rfl⟩ := hclosed
    exact hI.close h hs ha hk

theorem maintains_moveSession (target : Option Nat) : Maintains I (moveSession target) :=
  fun e h => (moveSession_outcome e target).maintains h fun _ _ ⟨h₁, hn, hs, heq⟩ =>
    heq ▸ hI.move h h₁ hn hs

theorem pushWindow_leads (h : I e) {flags : WindowFlags} (hflags : opens flags) :
    Leads (pushWindow flags) e fun _ e' => I e' ∧ e'.window.flags = flags :=
  (pushWindow_outcome e flags).mono fun answer e' hp => by
    cases answer with
    | ok id =>
      rw [show e' = e.pushed flags from hp]
      exact ⟨hI.push h hflags, rfl⟩
    | error err => exact hp.elim

theorem replaceWindow_leads (h : I e) {flags : WindowFlags} (hflags : opens flags) :
    Leads (replaceWindow flags) e fun _ e' => I e' ∧ e'.window.flags = flags :=
  (replaceWindow_outcome (hI.held h) flags).mono fun answer e' hp => by
    cases answer with
    | ok id =>
      obtain ⟨undo, p, hd, rfl⟩ := hp
      exact ⟨hI.replace h hd hflags, rfl⟩
    | error err => exact hp.elim

theorem maintains_popWindow : Maintains I popWindow :=
  fun _ h => (popWindow_outcome (hI.held h)).maintains h fun _ _ ⟨_, _, _, _, hd, hb, heq⟩ =>
    heq ▸ hI.pop h hd hb

end

end EditM

end LineEditor
