import LineEditor.Proofs.Bulk
import LineEditor.Proofs.Frames
import LineEditor.Proofs.Places
import LineEditor.Proofs.Requests
import LineEditor.Proofs.Walks

/-!
# Commands on the lines found

Once the lines for a request are found, what the line of input comes to is what its command comes to
there. An edit of the current window is carried out whatever stands beside the window, so what it
does to rows, labels and dot is known from the operation alone.
-/

namespace LineEditor

namespace Engine

/-- The lines found for a request, and the engine on which its command is then run. -/
def located (e : Engine) (q : Request) : Option (LineRange × Engine) :=
  match (e.view.locate false q.command q.range).run.run e.remembered with
  | .ok (.ok range, r) => some (range, (e.begun q.command).withRecall r)
  | _ => none

section
variable {e e₁ : Engine} {q : Request} {range : LineRange}

theorem located_eq_some : e.located q = some (range, e₁) ↔ ∃ r,
    (e.view.locate false q.command q.range).run.run e.remembered = .ok (.ok range, r) ∧
      e₁ = (e.begun q.command).withRecall r := by
  unfold located
  split
  · rename_i found r hrun
    rw [hrun]
    constructor
    · intro h
      cases h
      exact ⟨r, rfl, rfl⟩
    · rintro ⟨_, ⟨⟩, rfl⟩
      rfl
  · rename_i hnot
    constructor
    · exact fun h => by cases h
    · rintro ⟨r, hrun, -⟩
      exact absurd hrun (hnot range r)

/-- The lines found where no address is typed. -/
theorem located_of_range {cmd : Option Command} {expr : RangeExpr} {given : Option LineRange}
    (hgiven : e.view.range expr = pure given)
    (hr : effectiveRange e.window.dot e.window.dol false cmd given = .ok range)
    (hz : checkZero cmd range.start = .ok ()) (tail : List Char) :
    e.located ⟨cmd, expr, tail⟩ = some (range, e.begun cmd) := by
  have hlocate : e.view.locate false cmd expr = pure range := by
    unfold View.locate
    rw [hgiven, pure_bind, show e.view.window = e.window from rfl, hr]
    show (do
      liftExcept (checkZero cmd range.start)
      return range : Query LineRange) = _
    rw [hz]
    rfl
  refine located_eq_some.mpr ⟨e.remembered, ?_, ?_⟩
  · show (e.view.locate false cmd expr).run.run e.remembered = _
    rw [hlocate]
    rfl
  · rw [begun_eq]
    rfl

theorem rangeOf_of_located (h : e.located q = some (range, e₁)) : e.rangeOf q = some range := by
  obtain ⟨r, hrun, -⟩ := located_eq_some.mp h
  unfold rangeOf
  rw [hrun]

/-- What is remembered is no part of the state that matters to a command. -/
theorem Ready.withRecall (h : e.Ready) (r : Recall) : (e.withRecall r).Ready := by
  refine ⟨⟨⟨⟨⟨h.vacant, h.accounts⟩, h.consistent, h.below, h.record, h.others, fun t ht => ?_⟩,
    h.unmarked⟩, h.untyped⟩, h.calm⟩
  have hn : e.entry = some t := ht
  rw [h.untyped] at hn
  cases hn

theorem Idle.ready_located (h : e.Idle) (hk : EditM.keepsWarning q.command = false)
    (hloc : e.located q = some (range, e₁)) : e₁.Ready := by
  obtain ⟨r, -, rfl⟩ := located_eq_some.mp hloc
  have hcalm : (e.begun q.command).Ready := by
    rw [begun_eq]
    refine ⟨⟨⟨⟨⟨h.vacant, h.accounts⟩, h.consistent, h.below, h.record, h.others, fun t ht => ?_⟩,
      h.unmarked⟩, h.untyped⟩, by simp [hk]⟩
    have hn : e.entry = some t := ht
    rw [h.untyped] at hn
    cases hn
  exact hcalm.withRecall r

/-- The window in which a command is run shows what it showed. -/
theorem located_same (hloc : e.located q = some (range, e₁)) : e₁.pool = e.pool ∧
    e₁.limits = e.limits ∧ e₁.window.lines = e.window.lines ∧ e₁.window.labels = e.window.labels ∧
      e₁.window.dot = e.window.dot ∧ e₁.window.mode = e.window.mode := by
  obtain ⟨r, -, rfl⟩ := located_eq_some.mp hloc
  rw [begun_eq]
  exact ⟨rfl, rfl, rfl, rfl, rfl, rfl⟩

/-- Before a command is run, no more has changed than what a refused one may change. -/
theorem Idle.located_unaltered (h : e.Idle) (hloc : e.located q = some (range, e₁)) :
    e.Unaltered e₁ := by
  obtain ⟨r, hrun, rfl⟩ := located_eq_some.mp hloc
  have hyields := (View.locate_yields h.toHeld.readable false q.command q.range e.remembered).leads
  rw [begun_eq]
  exact ⟨rfl, .inl rfl, (hyields _ _ hrun).1⟩

/-- The lines found for a command that has no use for the place before the first line. -/
theorem Idle.located_within (h : e.Idle) (hloc : e.located q = some (range, e₁))
    (hzero : q.command.any Command.allowsZero = false) :
    1 ≤ range.start ∧ range.Within e₁.window.dol := by
  obtain ⟨hr, hpos⟩ := rangeOf_within h.toHeld.readable (rangeOf_of_located hloc)
  obtain ⟨-, -, hlines, -⟩ := located_same hloc
  rw [hzero] at hpos
  refine ⟨hpos.resolve_right Bool.false_ne_true, ?_⟩
  rw [Window.dol, hlines]
  exact hr

end

/-- The texts of a range are a run of the texts of the window. -/
theorem Held.texts_run {e : Engine} (h : e.Held) {start stop : Nat} (hs : start ≤ stop) :
    e.window.texts e.pool start stop = .ok (Sequence.run (e.pool.texts e.window.lines) start stop) := by
  have htexts := h.readable.texts start stop
  have hrun := Pool.texts_removed e.pool e.window.lines (start - 1) (stop + 1 - start)
  have hcount : stop + 1 - start = stop - start + 1 := by omega
  rw [show e.view.window = e.window from rfl, show e.view.pool = e.pool from rfl] at htexts
  rw [htexts, ← Pool.texts, hrun, hcount]
  rfl

/-- The edit was carried out in the current window, after the window was recorded. -/
structure Reworked (e : Engine) (change : Edit) (e' : Engine) : Prop where
  held : e'.Held
  rows_eq : e'.pool.rows e'.window.lines = change.rows (e.pool.rows e.window.lines)
  performed : ∃ p w, change.perform { e.window with flags.hasUndo := true } p = .ok (w, e'.pool) ∧
    e'.window = w.noteEdit

end Engine

namespace EditM

section
variable {e e₁ : Engine} {q : Request} {range : LineRange}

theorem run_begin {cmd : Option Command} (rest : EditM α) : (do
      if !keepsWarning cmd then modify fun e => { e with quitArmed := false }
      rest : EditM α).run.run e = rest.run.run (e.begun cmd) := by
  unfold Engine.begun
  cases hk : keepsWarning cmd <;> rfl

/-- A line comes to what its command comes to on the lines found. -/
theorem run_dispatch_located [CountLimit] {line : List Char} (hq : e.asks line = some q)
    (hloc : e.located q = some (range, e₁)) (hall : q.command.all e.window.mode.allows = true) :
    (dispatch line).run.run e = (runCommand q.command range q.tail).run.run e₁ := by
  obtain ⟨hn, hread⟩ := Engine.asks_eq_some.mp hq
  obtain ⟨r, hlocate, rfl⟩ := Engine.located_eq_some.mp hloc
  unfold Request.read at hread
  obtain ⟨typed, hparse, hread⟩ := bind_eq_ok.mp hread
  obtain ⟨cmd, hid, heq⟩ := bind_eq_ok.mp hread
  cases heq
  have hallowed : checkMode e.window.mode cmd = .ok () := by
    cases cmd with
    | none => rfl
    | some cmd => exact if_pos hall
  have hsame : (e.begun cmd).view = e.view ∧ (e.begun cmd).remembered = e.remembered ∧
      (e.begun cmd).window = e.window := by
    rw [Engine.begun_eq]
    exact ⟨rfl, rfl, rfl⟩
  unfold dispatch
  rw [run_get_bind, hn]
  show (execute (withoutNewline line)).run.run e = _
  unfold execute
  rw [CommandLine.lift_read, hparse]
  show (liftExcept (identify typed.letter) >>= _ : EditM Progress).run.run e = _
  rw [hid]
  refine (run_begin _).trans ?_
  rw [run_get_bind, hsame.2.2, hallowed]
  show (query (fun v => v.locate false cmd typed.range) >>= _).run.run (e.begun cmd) = _
  rw [run_bind, run_query, hsame.1, hsame.2.1, hlocate]
  rfl

theorem dispatch_located {line : List Char} (hq : e.asks line = some q)
    (hloc : e.located q = some (range, e₁)) (hall : q.command.all e.window.mode.allows = true)
    {post : Post Engine Progress} (h : Ends (runCommand q.command range q.tail) e₁ post) :
    Ends (dispatch line) e post := by
  unfold Ends at h ⊢
  rwa [run_dispatch_located hq hloc hall]

/-- An action that asks nothing of the file system ends the line that it is run for. -/
theorem dispatchOn_of_done {line : List Char} {x : EditM Report}
    (hx : ∀ post, Ends (.done <$> x) e₁ post → Ends (dispatch line) e post)
    {post : Post Engine Report} (h : Ends x e₁ post) (s : Storage σ) (disk : σ) :
    ∃ answer e', e.dispatchOn s line disk = .ok (answer, e', disk) ∧ post answer e' := by
  obtain ⟨⟨answer, e'⟩, hrun, hp⟩ := h
  have hends : Ends x e₁ fun a s => a = answer ∧ s = e' := ⟨_, hrun, rfl, rfl⟩
  refine ⟨answer, e', Engine.dispatchOn_done (hx _ ?_) s disk, hp⟩
  rw [ends_map]
  refine hends.mono ?_
  rintro outcome _ ⟨rfl, rfl⟩
  cases outcome with
  | ok report => exact ⟨rfl, rfl⟩
  | error err => exact ⟨rfl, rfl⟩

theorem dispatchOn_located {line : List Char} (hq : e.asks line = some q)
    (hloc : e.located q = some (range, e₁)) (hall : q.command.all e.window.mode.allows = true)
    {x : EditM Report} (hx : runCommand q.command range q.tail = .done <$> x)
    {post : Post Engine Report} (h : Ends x e₁ post) (s : Storage σ) (disk : σ) :
    ∃ answer e', e.dispatchOn s line disk = .ok (answer, e', disk) ∧ post answer e' := by
  refine dispatchOn_of_done (fun post hpost => ?_) h s disk
  rw [← hx] at hpost
  exact dispatch_located hq hloc hall hpost

/-! ## Carrying out a plan -/

/-- Nothing but the window and the pool is touched. -/
theorem edit_eq (change : Edit) : Leads (edit change) e fun _ e' => ∃ w p,
    change.perform e.window e.pool = .ok (w, p) ∧ e' = { e.setWindow w.noteEdit with pool := p } := by
  unfold edit
  exact leads_onWindow_bind.mpr fun w p hrun => leads_modify.mpr ⟨w, p, hrun, rfl⟩

/-- The window is recorded and then edited. -/
theorem snapshot_edit_reworks (h : e.Ready) {change : Edit} (hfit : change.Fits e.window.dol)
    {rest : Unit → EditM α} {post : Post Engine α}
    (hrest : ∀ e', e.Reworked change e' → e.Recorded e' → Ends (rest ()) e' post) :
    Ends (snapshot >>= fun _ => edit change >>= rest) e post := by
  refine (snapshot_ends h.toSound h.untyped h.calm).sure_then ?_
  rintro _ e₁ ⟨hrec, hwindow, -⟩
  have hlines : e₁.window.lines = e.window.lines := by rw [hwindow]
  have hfit₁ : change.Fits e₁.window.dol := by
    rw [Window.dol, hlines]
    exact hfit
  have hrows : e₁.pool.rows e₁.window.lines = e.pool.rows e.window.lines := by
    rw [hlines]
    exact Pool.rows_congr hrec.keeps
  refine ((edit_ends hrec.sound hrec.untyped hfit₁).and (edit_eq change)).then ?_
    fun _ _ hf => hf.1.elim
  rintro _ _ ⟨hw, w, p, hrun, rfl⟩
  have hshows := (Edit.perform_shows hrec.sound.accounts hfit₁).of_eq hrun
  refine hrest _ ⟨hw.sound.toHeld, ?_, e₁.pool, w, by rwa [← hwindow], rfl⟩ (hrec.worked hw)
  show p.rows w.noteEdit.lines = _
  rw [Window.noteEdit_lines, hshows.rows_eq, hrows]

theorem carryOut_edit_ends (h : e.Ready) {change : Edit} (hfit : change.Fits e.window.dol)
    (shape : Bool) (print : Option PrintStyle) :
    Ends (carryOut false (.edit change shape print)) e (.sure fun _ e' => e.Reworked change e') := by
  unfold carryOut
  refine snapshot_edit_reworks h hfit fun e₁ hre hrec => ?_
  refine (printDot_ends hrec.sound print).sure_then fun _ e₂ he => ends_pure.mpr ?_
  subst he
  exact hre

/-- Inside a global command no record is made: the edit is all there is. -/
theorem carryOut_inside_ends (h : e.Sound) (hn : e.entry = none) {change : Edit}
    (hfit : change.Fits e.window.dol) (shape : Bool) (print : Option PrintStyle) :
    Ends (carryOut true (.edit change shape print)) e (.sure fun report e' =>
      report.shapeChanged = shape ∧ e.Worked e' ∧ e'.rows = change.rows e.rows ∧
        ∃ w p, change.perform e.window e.pool = .ok (w, p) ∧
          e' = { e.setWindow w.noteEdit with pool := p }) := by
  have hedit := ((edit_ends h hn hfit).and (edit_rows h hfit).leads).and (edit_eq change)
  unfold carryOut
  refine hedit.then ?_ fun _ _ hf => hf.1.1.elim
  rintro _ e₁ ⟨⟨hw, hrows⟩, hperform⟩
  refine (printDot_ends hw.sound print).sure_then fun _ e₂ he => ends_pure.mpr ?_
  subst he
  exact ⟨rfl, hw, hrows, hperform⟩

/-- To look at a line is to go there. -/
theorem carryOut_look_eq {n : Nat} (hn : n ≤ e.window.dol) (output : List String) :
    Ends (carryOut false (.look (some n) output)) e
      (.sure fun _ e' => e' = e.setWindow (e.window.setDot n)) := by
  unfold carryOut
  exact (ends_goto_bind hn).mpr (ends_pure.mpr rfl)

end

end EditM

end LineEditor
