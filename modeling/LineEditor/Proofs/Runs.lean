import LineEditor.Proofs.Dispatch
import LineEditor.Storage.FileTree
import Mathlib.Data.Finset.Card
import Mathlib.Data.List.Dedup

/-!
# Whole runs

An engine is reachable if it comes from a new one by calls from outside, in any order, each of which
may succeed or be refused. No call meets a breach, and every reachable engine has the invariant. What
follows is said of the engine itself: its pool, its windows and records, and what a line of input
does to them.
-/

namespace LineEditor

/-- What may be asked of an engine from outside; lines of input come with the file system they meet,
and the request to stop comes between calls. -/
inductive Call : Type 1 where
  | line {σ : Type} (storage : Storage σ) (disk : σ) (text : List Char)
  | insertBulk (after : Nat) (blob : Bytes)
  | insertDirectory (after : Nat) (entries : List (Bytes × Option Suffix))
  | updateLine (n : Nat) (value : Bytes)
  | extractRange (start stop : Nat)
  | fetchLine (n : Nat)
  | pushWindow (flags : WindowFlags)
  | replaceWindow (flags : WindowFlags)
  | popWindow
  | switchSession (n : Nat)
  | closeSession
  | moveSession (target : Option Nat)
  | interrupt

namespace Engine

/-- The engine after an action, whatever its answer. -/
def after (e : Engine) (x : EditM α) : Except Breach Engine := do return (← e.run x).2

/-- The engine after a call, whether it succeeded or was refused. -/
def perform [CountLimit] (e : Engine) : Call → Except Breach Engine
  | .line storage disk text => do return (← e.dispatchOn storage text disk).2.1
  | .insertBulk place blob => e.after (EditM.insertBulk place blob)
  | .insertDirectory place entries => e.after (EditM.insertDirectory place entries)
  | .updateLine n value => e.after (EditM.updateLine n value)
  | .extractRange start stop => e.after (EditM.extractRange start stop)
  | .fetchLine n => e.after (EditM.fetchLine n)
  | .pushWindow flags => e.after (EditM.pushWindow flags)
  | .replaceWindow flags => e.after (EditM.replaceWindow flags)
  | .popWindow => e.after EditM.popWindow
  | .switchSession n => e.after (EditM.switchSession n)
  | .closeSession => e.after EditM.closeSession
  | .moveSession target => e.after (EditM.moveSession target)
  | .interrupt => return e.interrupt

/-- The engines that calls in any order lead to. -/
inductive Reachable : Engine → Prop
  | new (limits : Limits) : Reachable (Engine.new limits)
  | call {e e' : Engine} (c : Call) : Reachable e → e.perform c = .ok e' → Reachable e'

section
variable {e : Engine}

theorem Settles.steady {answer : Except EditError Report} {e' : Engine}
    (h : e.Settles answer e') : e'.Steady := by
  cases answer with
  | ok report => exact h.1
  | error err => exact h.1

theorem Moves.steady (h : e.Steady) {answer : Except EditError α} {e' : Engine}
    (h' : e.Moves answer e') : e'.Steady := by
  cases answer with
  | ok a => exact h'.1
  | error err =>
    rw [h'.1]
    exact h

theorem after_steady {x : EditM α} {post : Post Engine α} (hx : Ends x e post)
    (hpost : ∀ answer e', post answer e' → e'.Steady) : Succeeds (e.after x) Steady := by
  unfold after
  simp only [Succeeds.bind_iff, Succeeds.pure_iff]
  exact Succeeds.mono hx fun r hr => hpost r.1 r.2 hr

theorem after_opened {x : EditM α} (hx : Ends x e (.sure fun _ e' => e.Opened e')) :
    Succeeds (e.after x) Steady :=
  after_steady hx fun answer _ hp =>
    match answer with
    | .ok _ => hp.toSteady
    | .error _ => hp.elim

theorem Steady.interrupt (h : e.Steady) : e.interrupt.Steady :=
  ⟨⟨⟨h.vacant, h.accounts⟩, h.consistent, h.below, h.record, h.others, fun t ht =>
    have ⟨hid, hafter, hfits, hcalm⟩ := h.entry t ht
    ⟨hid, hafter, hfits, hcalm⟩⟩, h.unmarked⟩

/-- No call meets a breach, and each keeps the invariant. -/
theorem Steady.perform (h : e.Steady) (c : Call) : Succeeds (e.perform c) Steady := by
  cases c with
  | line storage disk text =>
    unfold Engine.perform
    simp only [Succeeds.bind_iff, Succeeds.pure_iff]
    exact (dispatchOn_settles h storage text disk).mono fun _ hr => hr.steady
  | insertBulk place blob =>
    exact after_steady (EditM.insertBulk_ends h.toSound place blob) fun _ _ hr =>
      (hr.worked h.toSound).steady h
  | insertDirectory place entries =>
    exact after_steady (EditM.insertDirectory_ends h.toSound place entries) fun _ _ hr =>
      (hr.worked h.toSound).steady h
  | updateLine n value =>
    exact after_steady (EditM.updateLine_ends h.toSound n value) fun _ _ hr => hr.steady h
  | extractRange start stop =>
    exact after_steady (EditM.extractRange_ends h.toSound start stop) fun _ _ hr => hr.1 ▸ h
  | fetchLine n => exact after_steady (EditM.fetchLine_ends h.toSound n) fun _ _ hr => hr ▸ h
  | pushWindow flags => exact after_opened (EditM.pushWindow_ends h flags)
  | replaceWindow flags => exact after_opened (EditM.replaceWindow_ends h flags)
  | popWindow => exact after_steady (EditM.popWindow_ends h) fun _ _ hr => hr.steady h
  | switchSession n => exact after_steady (EditM.switchSession_ends h n) fun _ _ hr => hr.steady h
  | closeSession => exact after_steady (EditM.closeSession_ends h) fun _ _ hr => hr.steady h
  | moveSession target =>
    exact after_steady (EditM.moveSession_ends h target) fun _ _ hr => hr.steady h
  | interrupt => exact Succeeds.pure_iff.mpr h.interrupt

theorem Reachable.steady (h : e.Reachable) : e.Steady := by
  induction h with
  | new limits => exact steady_new limits
  | call c _ hc ih =>
    obtain ⟨e', he', hs⟩ := ih.perform c
    rw [hc] at he'
    cases he'
    exact hs

/-! ## The pool -/

/-- Each line has as many references as there are entries that name it in windows and records; lines
are stored for the handles named and no others, no slot is free twice, and no call that comes next
meets a handle without a line. -/
theorem Reachable.pool_balanced (h : e.Reachable) :
    (∀ x, e.pool.refs x = e.handles.count x) ∧ e.pool.live = e.handles.dedup.length ∧
      (∀ x, (e.pool.text? x).isSome ↔ x ∈ e.handles) ∧ e.pool.free.Nodup ∧
      ∀ c, ∃ e', e.perform c = .ok e' := by
  have hs := h.steady
  have hb := hs.accounts.balanced
  rw [← hs.coe_handles] at hb
  refine ⟨fun x => ?_, ?_, fun x => ?_, hb.free_nodup, fun c => ?_⟩
  · rw [hb.refs_eq, Multiset.coe_count]
  · rw [hb.live_eq]
    rfl
  · rw [← Multiset.mem_coe, hb.mem_iff]
    unfold Pool.text?
    cases e.pool.stored? x <;> simp
  · obtain ⟨e', he', -⟩ := hs.perform c
    exact ⟨e', he'⟩

theorem pool_balanced_two_lines :
    ∃ e, (Engine.new ⟨1, 10, 100⟩).perform (.insertBulk 0 [97, 10, 98, 10]) = .ok e ∧
      (∀ x, e.pool.refs x = e.handles.count x) ∧ e.handles = [0, 1] := by
  refine ⟨_, rfl, ?_, rfl⟩
  exact (Reachable.pool_balanced (.call (.insertBulk 0 [97, 10, 98, 10]) (.new ⟨1, 10, 100⟩) rfl)).1

/-! ## Windows and records -/

/-- Dot and labels of every window and every record name lines of theirs, dot is 0 only where there
is no line, and between calls no line is marked. -/
theorem Reachable.windows_consistent (h : e.Reachable) : ∀ s ∈ e.table.sessions,
    (∀ w ∈ s.windows, w.dot ≤ w.dol ∧ (w.dot = 0 ↔ w.lines = []) ∧
      (∀ name n, w.labels.get? name = some n → 1 ≤ n ∧ n ≤ w.dol) ∧
      ∀ x ∈ w.lines, x.marked = false) ∧
    ∀ r, s.undo.record = some r → r.dot ≤ r.lines.length ∧ (r.dot = 0 ↔ r.lines = []) ∧
      ∀ name n, r.labels.get? name = some n → 1 ≤ n ∧ n ≤ r.lines.length := by
  intro s hmem
  have hs := h.steady.table_settled s hmem
  refine ⟨fun w hw => ?_, fun r hr => ?_⟩
  · obtain ⟨hplaced, hunmarked⟩ := hs.of_mem_windows hw
    refine ⟨hplaced.dot_le, ?_, hplaced.labels_within, hunmarked⟩
    exact hplaced.dot_eq_zero_iff.trans List.length_eq_zero_iff
  · obtain ⟨hplaced, -⟩ := hs.record r hr
    refine ⟨hplaced.dot_le, ?_, hplaced.labels_within⟩
    exact hplaced.dot_eq_zero_iff.trans List.length_eq_zero_iff

theorem windows_consistent_two_lines :
    ∃ e, (Engine.new ⟨1, 10, 100⟩).perform (.insertBulk 0 [97, 10, 98, 10]) = .ok e ∧
      e.table.sessions.length = 1 ∧ ∀ s ∈ e.table.sessions, ∀ w ∈ s.windows, w.dot ≤ w.dol := by
  refine ⟨_, rfl, rfl, fun s hs w hw => ?_⟩
  have h := Reachable.windows_consistent
    (.call (.insertBulk 0 [97, 10, 98, 10]) (.new ⟨1, 10, 100⟩) rfl) s hs
  exact (h.1 w hw).1

/-- Every reachable engine passes the checks that it has of itself. -/
theorem Reachable.checks_pass (h : e.Reachable) :
    e.poolBalanced = true ∧ e.windowsConsistent = true := by
  have hs := h.steady
  have hb := hs.accounts.balanced
  rw [← hs.coe_handles] at hb
  refine ⟨hb.isBalanced, ?_⟩
  unfold windowsConsistent
  rw [List.all_eq_true]
  intro s hmem
  rw [List.all_eq_true]
  exact fun w hw => ((hs.table_settled s hmem).of_mem_windows hw).consistent.isConsistent

/-! ## Refused lines -/

/-- A line that is refused, other than by a global command that stopped half way, leaves all windows,
records, stored lines and sessions as they were. What may differ is what the current window
remembers, the warning of unsaved edits, a request to stop that was heeded, and a text that is no
longer typed. -/
theorem Reachable.refused_line_alters_nothing (h : e.Reachable) {storage : Storage σ} {disk disk' : σ}
    {line : List Char} {err : EditError} {e' : Engine}
    (hrun : e.dispatchOn storage line disk = .ok (.error err, e', disk'))
    (herr : ∀ cause last, err ≠ .partialGlobalFailure cause last) :
    e' = { e with
      session := { e.session with
        current := { e.window with
          lastSearch := e'.window.lastSearch
          lastReplacement := e'.window.lastReplacement } }
      quitArmed := e'.quitArmed
      interrupted := e'.interrupted
      entry := e'.entry } ∧
    (e'.interrupted = true → e.interrupted = true) ∧ (e'.entry = e.entry ∨ e'.entry = none) := by
  have hsettles := (dispatchOn_settles h.steady storage line disk).of_eq hrun
  have hwhole : err.isPartial = false := by
    cases err with
    | partialGlobalFailure cause last => exact absurd rfl (herr cause last)
    | _ => rfl
  obtain ⟨-, hcase⟩ := hsettles
  rw [hwhole] at hcase
  have hun : e.Unaltered e' := hcase
  exact ⟨hun.eq, hun.heeded, hun.entry_eq⟩

theorem refused_delete_alters_nothing : ∃ e',
    (Engine.new ⟨1, 10, 100⟩).dispatchOn FileTree.storage ['d'] .empty =
      .ok (.error .zeroLine, e', .empty) ∧ e'.pool = .empty ∧ e'.window.lines = [] := by
  obtain ⟨⟨answer, e', disk⟩, hrun, -⟩ :=
    dispatchOn_settles (steady_new ⟨1, 10, 100⟩) FileTree.storage ['d'] .empty
  have hanswer : ((Engine.new ⟨1, 10, 100⟩).dispatchOn FileTree.storage ['d'] .empty).map
      (fun r => (r.1, r.2.2)) = .ok (.error .zeroLine, .empty) := by decide +kernel
  rw [hrun] at hanswer
  cases hanswer
  have h := Reachable.refused_line_alters_nothing (.new ⟨1, 10, 100⟩) hrun (by simp)
  refine ⟨e', hrun, ?_, ?_⟩ <;> rw [h.1] <;> rfl

/-! ## Undoing -/

/-- After a line that changed the text, and after a global command that stopped half way, undoing
gives the window the lines, dot and labels it had before, and undoing again gives back the engine
after the line. The stored lines are not touched. -/
theorem Reachable.undo_exact (h : e.Reachable) {storage : Storage σ} {disk disk' : σ}
    {line : List Char} {answer : Except EditError Report} {e₁ : Engine}
    (hrun : e.dispatchOn storage line disk = .ok (answer, e₁, disk'))
    (hchanged : (∃ report, answer = .ok report ∧ report.changed = true) ∨
      ∃ cause last, answer = .error (.partialGlobalFailure cause last)) :
    ∃ e₂,
      (∀ (τ : Type) (s : Storage τ) (d : τ),
        e₁.dispatchOn s ['u'] d = .ok (.ok (.ofSwitch []), e₂, d)) ∧
      e₂.window.id = e.window.id ∧ e₂.window.lines = e.window.lines ∧
      (∀ n, e₂.window.text? e₂.pool n = e.window.text? e.pool n) ∧
      e₂.window.dot = e.window.dot ∧ e₂.window.labels = e.window.labels ∧
      e₂.window.flags.noFinalNewline = e.window.flags.noFinalNewline ∧ e₂.pool = e₁.pool ∧
      ∀ (τ : Type) (s : Storage τ) (d : τ),
        e₂.dispatchOn s ['u'] d = .ok (.ok (.ofSwitch []), e₁, d) := by
  have hs := h.steady
  have hsettles := (dispatchOn_settles hs storage line disk).of_eq hrun
  have hrec : e.Recorded e₁ := by
    rcases hchanged with ⟨report, rfl, hc⟩ | ⟨cause, last, rfl⟩
    · exact hsettles.2 hc
    · exact hsettles.2
  have hready : e₁.Ready := ⟨⟨hsettles.steady, hrec.untyped⟩, hrec.calm⟩
  have hrecord := hrec.record_eq
  rw [hs.unmarked.clearMarks_eq] at hrecord
  have hundo (τ : Type) (s : Storage τ) (d : τ) := dispatchOn_undo hready hrecord hrec.id_eq.symm s d
  have hsteady := ((dispatchOn_settles hready.toSteady storage ['u'] disk).of_eq (hundo _ _ _)).1
  -- undoing leaves a record of what was undone, so the same holds of the engine that comes of it
  have hready₂ : (e₁.undone (UndoSlot.recordOf e.window e.window.lines)).Ready :=
    ⟨⟨hsteady, hrec.untyped⟩, hrec.calm⟩
  have hredo (τ : Type) (s : Storage τ) (d : τ) := dispatchOn_undo hready₂ rfl rfl s d
  rw [undone_undone hrecord hrec.id_eq.symm] at hredo
  refine ⟨_, hundo, hrec.id_eq, rfl, fun n => ?_, rfl, rfl, rfl, rfl, hredo⟩
  exact Window.text?_congr rfl hrec.keeps n

theorem undo_exact_delete : ∃ e e₁ e₂,
    (Engine.new ⟨1, 10, 100⟩).perform (.insertBulk 0 [97, 10, 98, 10]) = .ok e ∧
      e.dispatchOn FileTree.storage ['d'] .empty = .ok (.ok (.ofEdit true []), e₁, .empty) ∧
      e₁.dispatchOn FileTree.storage ['u'] .empty = .ok (.ok (.ofSwitch []), e₂, .empty) ∧
      e₂.window.lines = e.window.lines := by
  obtain ⟨e, he, hs⟩ := (steady_new ⟨1, 10, 100⟩).perform (.insertBulk 0 [97, 10, 98, 10])
  obtain ⟨⟨answer, e₁, disk⟩, hrun, -⟩ := dispatchOn_settles hs FileTree.storage ['d'] .empty
  have hanswer : ((Engine.new ⟨1, 10, 100⟩).perform (.insertBulk 0 [97, 10, 98, 10]) >>= fun e =>
      (e.dispatchOn FileTree.storage ['d'] .empty).map fun r => (r.1, r.2.2)) =
      .ok (.ok (.ofEdit true []), .empty) := by decide +kernel
  have hlast : (e.dispatchOn FileTree.storage ['d'] .empty).map (fun r => (r.1, r.2.2)) =
      .ok (.ok (.ofEdit true []), .empty) := by
    rw [he] at hanswer
    exact hanswer
  rw [hrun] at hlast
  cases hlast
  obtain ⟨e₂, hundo, -, hlines, -⟩ :=
    Reachable.undo_exact (.call _ (.new ⟨1, 10, 100⟩) he) hrun (.inl ⟨_, rfl, rfl⟩)
  exact ⟨e, e₁, e₂, he, hrun, hundo _ _ _, hlines⟩

end

end Engine

end LineEditor
