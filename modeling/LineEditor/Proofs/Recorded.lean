import LineEditor.Command.Dispatch
import LineEditor.Proofs.Transaction

/-!
# The way back

Once a window is recorded, whatever is done in it keeps the record and the texts of its lines, so
that undoing comes back to the window as it was when the line of input began. A line of input
settles in one of three ways: refused, done without a change of the text, or with a record made.
-/

namespace LineEditor

theorem Window.text?_congr {w w' : Window} {p p' : Pool} (hl : w'.lines = w.lines)
    (hk : p.Keeps p' w.lines.handles) (n : Nat) : w'.text? p' n = w.text? p n := by
  have hentry : w'.entry? n = w.entry? n := by
    unfold entry?
    rw [hl]
  unfold text?
  rw [hentry]
  cases hx : w.entry? n with
  | none => rfl
  | some x =>
    have hget : p'.get x.handle = p.get x.handle :=
      Pool.get_congr (hk _ (List.mem_map_of_mem (View.entry?_mem hx)))
    dsimp only
    rw [hget]

namespace Engine

/-- The undo record of `e'` tells how the current window was in `e`. -/
structure Recorded (e e' : Engine) : Prop where
  sound : e'.Sound
  record_eq : e'.session.undo.record = some (UndoSlot.recordOf e.window e.window.lines.clearMarks)
  id_eq : e'.window.id = e.window.id
  keeps : e.pool.Keeps e'.pool e.window.lines.handles
  untyped : e'.entry = none
  calm : e'.quitArmed = false

/-- How a line of input may come out. -/
def Settles (e : Engine) : Post Engine Report
  | .ok report, e' => e'.Steady ∧ (report.changed = true → e.Recorded e')
  | .error err, e' => e'.Steady ∧ if err.isPartial then e.Recorded e' else e.Unaltered e'

section
variable {e e' e'' : Engine}

theorem handles_clearMarks (m : LineMap) : m.clearMarks.handles = m.handles := by
  simp [LineMap.clearMarks, LineMap.handles, Entry.unmark, Function.comp_def]

/-- The same lines are kept beside the window by its record. -/
theorem Recorded.handles_subset (h : e.Recorded e') :
    (e.window.lines.handles : Multiset Handle) ⊆ e'.beside.map Prod.fst := by
  intro x hx
  have hcontents := UndoSlot.contents_of_some h.record_eq
  rw [beside, Multiset.map_add, hcontents]
  refine Multiset.mem_add.mpr (.inl ?_)
  rw [UndoSlot.recordOf, LineMap.contents_clearMarks, LineMap.map_fst_contents]
  exact hx

theorem Recorded.worked (h : e.Recorded e') (h' : e'.Worked e'') : e.Recorded e'' := by
  have haside := h'.aside_eq
  simp only [aside, Prod.mk.injEq] at haside
  obtain ⟨-, -, hundo, -, -, -, hentry, harmed⟩ := haside
  exact
    { sound := h'.sound
      record_eq := hundo ▸ h.record_eq
      id_eq := h'.id_eq.trans h.id_eq
      keeps := h.keeps.trans (h'.keeps.mono h.handles_subset)
      untyped := hentry.trans h.untyped
      calm := harmed.trans h.calm }

/-- What matters of a window is what would be recorded of it. -/
theorem Recorded.of_recordOf_eq (h : e'.Recorded e'') (hp : e'.pool = e.pool)
    (hr : UndoSlot.recordOf e'.window e'.window.lines.clearMarks =
      UndoSlot.recordOf e.window e.window.lines.clearMarks) : e.Recorded e'' where
  sound := h.sound
  record_eq := hr ▸ h.record_eq
  id_eq := h.id_eq.trans (congrArg UndoRecord.window hr)
  keeps := by
    have hh : e'.window.lines.handles = e.window.lines.handles := by
      rw [← handles_clearMarks, ← handles_clearMarks e.window.lines]
      exact congrArg (fun r => LineMap.handles r.lines) hr
    rw [← hh, ← hp]
    exact h.keeps
  untyped := h.untyped
  calm := h.calm

theorem Unaltered.recorded (h : e.Unaltered e') (h' : e'.Recorded e'') : e.Recorded e'' := by
  refine h'.of_recordOf_eq ?_ ?_ <;> rw [h.eq] <;> rfl

theorem Unaltered.settles (h : e.Unaltered e') {answer : Except EditError Report}
    (h' : e'.Settles answer e'') : e.Settles answer e'' := by
  cases answer with
  | ok report => exact ⟨h'.1, fun hc => h.recorded (h'.2 hc)⟩
  | error err =>
    obtain ⟨hs, hcase⟩ := h'
    refine ⟨hs, ?_⟩
    by_cases hp : err.isPartial = true
    · rw [if_pos hp] at hcase ⊢
      exact h.recorded hcase
    · rw [if_neg hp] at hcase ⊢
      exact h.trans hcase

theorem Recorded.settles (h : e.Recorded e') (hu : e'.window.lines.Unmarked) (report : Report) :
    e.Settles (.ok report) e' :=
  ⟨⟨h.sound, hu⟩, fun _ => h⟩

theorem Steady.settles (h : e'.Steady) {report : Report} (hr : report.changed = false) :
    e.Settles (.ok report) e' :=
  ⟨h, fun hc => by rw [hr] at hc; cases hc⟩

theorem Unaltered.refused (h : e.Unaltered e') (he : e'.Steady) {err : EditError}
    (herr : err.isPartial = false) : e.Settles (.error err) e' :=
  ⟨he, by rw [herr]; exact h⟩

end

end Engine

namespace EditM

section
variable {e : Engine}

theorem snapshot_ends (h : e.Sound) (hn : e.entry = none) (hq : e.quitArmed = false) :
    Ends snapshot e (.sure fun _ e' => e.Recorded e' ∧
      e'.window = { e.window with flags.hasUndo := true } ∧ e'.limits = e.limits) := by
  have hcaptured := UndoSlot.capture_captured (fun r hr => (h.record r hr).unmarked) h.accounts
  unfold snapshot
  simp only [ends_bind, ends_get, Post.after_ok, ends_lift, ends_set]
  refine hcaptured.mono fun r hr => ⟨?_, hr.window_eq, rfl⟩
  obtain ⟨u, w, p⟩ := r
  have hwindow : w = { e.window with flags.hasUndo := true } := hr.window_eq
  have hsub : (e.window.lines.handles : Multiset Handle) ⊆
      (e.window.lines.contents + e.elsewhere).map Prod.fst := by
    intro x hx
    rw [Multiset.map_add, LineMap.map_fst_contents]
    exact Multiset.mem_add.mpr (.inl hx)
  refine ⟨?_, hr.record_eq, by rw [hwindow]; rfl, hr.keeps.mono hsub, hn, hq⟩
  refine
    { vacant := h.vacant
      accounts := ?_
      consistent := by rw [hwindow]; exact h.consistent
      below := h.below
      record := ?_
      others := h.others
      entry := ?_ }
  · rw [hwindow]
    exact hr.accounts
  · intro r' hr'
    rw [hr.record_eq] at hr'
    cases hr'
    refine ⟨?_, LineMap.unmarked_clearMarks _⟩
    have hlen : e.window.lines.clearMarks.length = e.window.dol := by
      simp [LineMap.clearMarks, Window.dol]
    show Placed e.window.dot e.window.labels e.window.lines.clearMarks.length
    rw [hlen]
    exact h.consistent
  · intro t ht
    rw [hn] at ht
    cases ht

/-- What follows a record works in a window of the same size, of which no line is marked. -/
theorem snapshot_then (h : e.Ready) {f : Unit → EditM β} {post : Post Engine β}
    (hok : ∀ e', e.Recorded e' → e'.window.dol = e.window.dol → e'.window.lines.Unmarked →
      e'.limits = e.limits → Ends (f ()) e' post) : Ends (snapshot >>= f) e post := by
  refine (snapshot_ends h.toSound h.untyped h.calm).sure_then ?_
  rintro _ e' ⟨hrec, hwin, hlim⟩
  have hlines : e'.window.lines = e.window.lines := by rw [hwin]
  refine hok e' hrec (congrArg List.length hlines) ?_ hlim
  rw [hlines]
  exact h.unmarked

/-- What is refused when the command is read leaves everything as it was. -/
theorem settles_reads (h : e.Idle) {x : Except EditError α} {P : α → Prop} (hx : Reads x P)
    {f : α → EditM Report} (hok : ∀ a, P a → Ends (f a) e e.Settles) :
    Ends (liftExcept x >>= f) e e.Settles :=
  hx.then hok fun _ herr => (Engine.Unaltered.refl e).refused h.toSteady herr

theorem settles_moves (h : e.Idle) {x : EditM α} (hx : Ends x e e.Moves) {f : α → EditM Report}
    (hok : ∀ a e', e'.Idle → Ends (f a) e' e.Settles) : Ends (x >>= f) e e.Settles := by
  refine hx.then (fun a e' hp => hok a e' ⟨hp.1, hp.2 h.untyped⟩) ?_
  rintro err _ ⟨rfl, herr⟩
  exact (Engine.Unaltered.refl _).refused h.toSteady herr

theorem settles_checkCapacity (h : e.Idle) {adding : Nat} {f : Unit → EditM Report}
    (hok : e.window.dol + adding ≤ e.limits.lines → Ends (f ()) e e.Settles) :
    Ends (checkCapacity adding >>= f) e e.Settles := by
  unfold checkCapacity
  rw [bind_assoc, ends_get_bind]
  exact settles_reads h (e.view.checkCapacity_reads adding) fun _ => hok

/-- What the record told of is what the window is, and the other way round. -/
theorem undo_ends (h : e.Idle) : Ends undo e e.Moves := by
  unfold undo
  rw [ends_get_bind]
  cases hr : e.session.undo.record with
  | none =>
    simp only [UndoSlot.undo?, hr]
    exact ends_throw.mpr ⟨rfl, rfl⟩
  | some r =>
    by_cases hid : r.window = e.window.id
    · simp only [UndoSlot.undo?, hr, hid, if_true, ends_set]
      have hset := h.record r hr
      refine ⟨⟨⟨⟨h.vacant, h.toHeld.accounts_swap hr⟩, hset.placed, h.below, ?_, h.others, ?_⟩,
        hset.unmarked⟩, id⟩
      · intro r' hr'
        cases hr'
        exact ⟨h.consistent, h.unmarked⟩
      · intro t ht
        have hnone : (none : Option TextEntry) = some t := h.untyped ▸ ht
        cases hnone
    · simp only [UndoSlot.undo?, hr, hid, if_false]
      exact ends_throw.mpr ⟨rfl, rfl⟩

end

end EditM

end LineEditor
