import LineEditor.Proofs.Categories
import LineEditor.Proofs.Runs
import LineEditor.Proofs.Walks

/-!
# Lines with a global command

A line that marks lines is read as a whole first; then the marks are set, the window is recorded and
the walk begins. Whatever the subcommand does, the walk comes to an end and leaves no mark.
-/

namespace LineEditor

namespace EditM

/-- Reads a line as a global command: its range, and which lines of it are to be visited. There is
nothing to be said of other commands. -/
def readGlobal (text : List Char) : EditM (Option (LineRange × GlobalRequest)) := do
  let line ← liftExcept (CommandLine.parse text)
  match ← liftExcept (identify line.letter) with
  | some (.global inverted) => do
    modify fun e => { e with quitArmed := false }
    liftExcept (checkMode (← get).window.mode (some (.global inverted)))
    let range ← query fun v => v.locate false (some (.global inverted)) line.range
    let request ← query fun v => GlobalRequest.parse v inverted range line.tail
    return some (range, request)
  | _ => return none

/-- What is left to do when a global command has been read. -/
def walkGlobal (range : LineRange) (request : GlobalRequest) : EditM Report := do
  modifyWindow fun w => { w with lines := w.lines.markRun (range.start - 1) request.hits }
  snapshot
  let outcome ← attempt (visitMarked request.subcommand (← get).window.lines.markedCount 1 none)
  modifyWindow Window.clearMarks
  liftExcept outcome

theorem runGlobal_eq (inverted : Bool) (range : LineRange) (tail : List Char) :
    runGlobal inverted range tail =
      query (fun v => GlobalRequest.parse v inverted range tail) >>= walkGlobal range := rfl

theorem liftExcept_ok (a : α) :
    (liftExcept (.ok a : Except EditError α) : EditM α) = pure a := rfl

/-- Such a line is read, and then the lines are walked. -/
theorem execute_eq (text : List Char) : execute text = readGlobal text >>= fun found =>
    found.elim (execute text) fun p => .done <$> walkGlobal p.1 p.2 := by
  cases hparse : CommandLine.parse text with
  | error err =>
    unfold execute readGlobal
    rw [CommandLine.lift_read, hparse]
    rfl
  | ok line =>
    cases hcmd : identify line.letter with
    | error err =>
      unfold execute readGlobal
      rw [CommandLine.lift_read]
      simp only [hparse, liftExcept_ok, pure_bind, hcmd]
      rfl
    | ok cmd =>
      unfold readGlobal
      simp only [hparse, liftExcept_ok, pure_bind, hcmd]
      cases cmd with
      | none => rfl
      | some cmd =>
        cases cmd with
        | global inverted =>
          unfold execute
          rw [CommandLine.lift_read]
          simp only [hparse, liftExcept_ok, pure_bind, hcmd, bind_assoc, keepsWarning, runCommand,
            runGlobal_eq, Option.elim, map_eq_pure_bind]
          rfl
        | _ => rfl

section
variable {e : Engine}

/-- Reading a line changes no line of a window. -/
theorem readGlobal_ends (h : e.Idle) (text : List Char) :
    Ends (readGlobal text) e fun answer e' => e.Unaltered e' ∧
      ∀ found, answer = .ok (some found) → e'.quitArmed = false := by
  have hrefused {e' : Engine} (hun : e.Unaltered e') (err : EditError) : e.Unaltered e' ∧
      ∀ found, (.error err : Except EditError (Option (LineRange × GlobalRequest))) =
        .ok (some found) → e'.quitArmed = false :=
    ⟨hun, fun found hf => by cases hf⟩
  unfold readGlobal
  refine (CommandLine.parse_reads text).then (fun line _ => ?_) fun err _ => hrefused (.refl e) err
  refine (identify_reads line.letter).then (fun cmd _ => ?_) fun err _ => hrefused (.refl e) err
  split
  · rename_i inverted
    have hun := e.unaltered_armed false
    have hidle := hun.idle h
    rw [ends_modify_bind, ends_get_bind]
    refine (checkMode_reads _ _).then (fun _ _ => ?_) fun err _ => hrefused hun err
    have hlocate := View.locate_yields hidle.toSound.readable false (some (.global inverted)) line.range
    refine (query_ends hlocate).then ?_ fun err e₁ hq => hrefused (hun.trans hq.1.unaltered) err
    rintro range e₁ ⟨hrec, -⟩
    have hun₁ := hun.trans hrec.unaltered
    have hidle₁ := hrec.unaltered.idle hidle
    have hparse := parse_yields hidle₁.toSound.readable inverted range line.tail
    refine (query_ends hparse).then ?_ fun err e₂ hq => hrefused (hun₁.trans hq.1.unaltered) err
    rintro request e₂ ⟨hrec₂, -⟩
    refine ends_pure.mpr ⟨hun₁.trans hrec₂.unaltered, fun _ _ => ?_⟩
    obtain ⟨r, rfl, -⟩ := hrec
    obtain ⟨r₂, rfl, -⟩ := hrec₂
    rfl
  · exact ends_pure.mpr ⟨.refl e, fun found hf => by cases hf⟩

end

end EditM

/-- The rows of the current window with the marks that a global command sets. -/
def Engine.markedRows (e : Engine) (range : LineRange) (request : GlobalRequest) : List Row :=
  e.pool.rows (e.window.lines.markRun (range.start - 1) request.hits)

/-- The visits to rows that were `start` when they were marked, with what came of them and the
origins of the lines at the end. -/
structure EachOnce (start : List Row) (visits : List Visit) (outcome : Except EditError Report)
    (origins : Origins) : Prop where
  length_le : visits.length ≤ start.countP Row.marked
  /-- No line is handed out twice. -/
  nodup : (visits.map Visit.origin).Nodup
  /-- What is handed out stood among the marked lines, and it is on the current line. -/
  meets : ∀ v ∈ visits, v.Meets start
  /-- Unless a subcommand fails, each line that was marked is handed out or is gone. -/
  complete : ∀ report, outcome = .ok report → ∀ i row, start[i]? = some row → row.marked = true →
    some i ∈ visits.map Visit.origin ∨ some i ∉ origins

section
variable {e : Engine}

/-- Once the window is recorded, with the lines marked, the walk begins. -/
theorem walkGlobal_of_snapshot {s : Engine} {range : LineRange} {request : GlobalRequest}
    (hsnap : Ends EditM.snapshot (e.setWindow { e.window with
      lines := e.window.lines.markRun (range.start - 1) request.hits }) (.sure fun _ e' => e' = s))
    (hs : s.Sound) (hn : s.entry = none) {post : Post Engine Report}
    (hpost : ∀ visits outcome last origins,
      Walk request.subcommand s ((List.range s.rows.length).map some) 1 none visits outcome last
        origins →
      visits.length ≤ s.rows.countP Row.marked → post outcome (last.setWindow last.window.clearMarks)) :
    Ends (EditM.walkGlobal range request) e post := by
  unfold EditM.walkGlobal
  rw [EditM.ends_modifyWindow_bind]
  refine hsnap.sure_then fun _ e' heq => ?_
  rw [show e' = s from heq]
  obtain ⟨visits, outcome, last, origins, hwalk, hlen⟩ := exists_walk hs hn
    request.subcommand ((List.range s.rows.length).map some) 1 none
  have hfuel : visits.length ≤ s.window.lines.markedCount := Engine.countP_rows s ▸ hlen
  rw [ends_get_bind, ends_bind, EditM.ends_attempt]
  refine (hwalk.ends hfuel).mono ?_
  rintro _ _ ⟨rfl, rfl⟩
  rw [Post.after_ok, EditM.ends_modifyWindow_bind, ends_liftExcept]
  exact hpost visits _ _ origins hwalk hlen

/-- The lines are marked and the window is recorded; then the walk begins. -/
theorem walkGlobal_ends (h : e.Ready) {range : LineRange} {request : GlobalRequest}
    {post : Post Engine Report}
    (hpost : ∀ s visits outcome last origins, s.Sound → s.entry = none →
      s.rows = e.markedRows range request →
      s.window = { e.window with
        lines := e.window.lines.markRun (range.start - 1) request.hits
        flags.hasUndo := true } →
      Walk request.subcommand s ((List.range s.rows.length).map some) 1 none visits outcome last
        origins →
      visits.length ≤ s.rows.countP Row.marked → post outcome (last.setWindow last.window.clearMarks)) :
    Ends (EditM.walkGlobal range request) e post := by
  have hmarks := e.window.lines.clearMarks_markRun (range.start - 1) request.hits
  obtain ⟨⟨answer, s⟩, hsnap, hrecorded⟩ :=
    EditM.snapshot_ends (h.toSound.of_marks hmarks) h.untyped h.calm
  cases answer with
  | error err => exact hrecorded.elim
  | ok _ =>
    obtain ⟨hrec, hwindow, -⟩ := hrecorded
    have hrows : s.rows = e.markedRows range request := by
      unfold Engine.rows Engine.markedRows
      rw [hwindow]
      exact Pool.rows_congr hrec.keeps
    exact walkGlobal_of_snapshot ⟨_, hsnap, rfl⟩ hrec.sound hrec.untyped fun visits outcome last origins =>
      hpost s visits outcome last origins hrec.sound hrec.untyped hrows hwindow

theorem walkGlobal_walks (h : e.Ready) (range : LineRange) (request : GlobalRequest) :
    Ends (EditM.walkGlobal range request) e fun outcome e' => ∃ s visits last origins,
      s.rows = e.markedRows range request ∧
      Walk request.subcommand s ((List.range s.rows.length).map some) 1 none visits outcome last
        origins ∧
      EachOnce s.rows visits outcome origins ∧ e' = last.setWindow last.window.clearMarks := by
  refine walkGlobal_ends h fun s visits outcome last origins hsound hn hrows _ hwalk hlen => ?_
  obtain ⟨visited, horigins, hnodup, hmeets, hend, hok⟩ :=
    hwalk.tracks hsound hn List.nodup_nil (.refl s.rows)
  rw [List.append_nil] at hnodup hend
  refine ⟨s, visits, _, origins, hrows, hwalk, ⟨hlen, ?_, hmeets, fun report hr i row hi hm => ?_⟩, rfl⟩
  · rw [horigins]
    exact (List.nodup_reverse.mp hnodup).map (Option.some_injective Nat)
  · rcases hend.handed_or_gone (hok report hr) hi hm with hh | hgone
    · left
      rw [horigins]
      exact List.mem_map_of_mem (List.mem_reverse.mp hh)
    · exact .inr hgone

theorem dispatchOn_of_readGlobal (hn : e.entry = none) {line : List Char} {range : LineRange}
    {request : GlobalRequest} {e₁ e' : Engine} {outcome : Except EditError Report}
    (hread : e.run (EditM.readGlobal (EditM.withoutNewline line)) =
      .ok (.ok (some (range, request)), e₁))
    (hwalk : e₁.run (EditM.walkGlobal range request) = .ok (outcome, e')) (storage : Storage σ)
    (disk : σ) : e.dispatchOn storage line disk = .ok (outcome, e', disk) := by
  have hfound : Ends (EditM.readGlobal (EditM.withoutNewline line)) e fun answer s =>
      answer = .ok (some (range, request)) ∧ s = e₁ := ⟨_, hread, rfl, rfl⟩
  refine Engine.dispatchOn_done ?_ storage disk
  rw [EditM.dispatch_untyped hn, EditM.execute_eq]
  refine hfound.then ?_ ?_
  · rintro _ _ ⟨⟨⟩, rfl⟩
    refine ends_map.mpr ⟨_, hwalk, ?_⟩
    cases outcome <;> exact ⟨rfl, rfl⟩
  · rintro _ _ ⟨⟨⟩, -⟩

/-- A global command that marks lines hands each of them to the subcommand once, as the current line,
unless an earlier subcommand took it out, and hands it no other line. It ends after no more visits
than there were marks, and leaves none. -/
theorem Engine.Reachable.global_each_once (h : e.Reachable) (hn : e.entry = none) {line : List Char}
    {range : LineRange} {request : GlobalRequest} {e₁ : Engine}
    (hread : e.run (EditM.readGlobal (EditM.withoutNewline line)) =
      .ok (.ok (some (range, request)), e₁)) (storage : Storage σ) (disk : σ) :
    ∃ s visits outcome last origins e',
      s.rows = e.markedRows range request ∧
      Walk request.subcommand s ((List.range s.rows.length).map some) 1 none visits outcome last
        origins ∧
      EachOnce s.rows visits outcome origins ∧
      e.dispatchOn storage line disk = .ok (outcome, e', disk) ∧
      e' = last.setWindow last.window.clearMarks ∧
      ∀ t ∈ e'.table.sessions, ∀ w ∈ t.windows, w.lines.Unmarked := by
  have hidle : e.Idle := ⟨h.steady, hn⟩
  obtain ⟨hun, hcalm⟩ := (EditM.readGlobal_ends hidle _).of_eq hread
  have hready : e₁.Ready := ⟨hun.idle hidle, hcalm _ rfl⟩
  have hrows : e₁.markedRows range request = e.markedRows range request := by
    have heq : e₁ = { e.withRecall e₁.remembered with
      quitArmed := e₁.quitArmed, entry := e₁.entry } := hun.eq
    rw [heq]
    rfl
  obtain ⟨⟨outcome, e'⟩, hrun, s, visits, last, origins, hs, hwalk, hall, he'⟩ :=
    walkGlobal_walks hready range request
  have hdispatch : e.dispatchOn storage line disk = .ok (outcome, e', disk) :=
    dispatchOn_of_readGlobal hn hread hrun storage disk
  refine ⟨s, visits, outcome, last, origins, e', hs.trans hrows, hwalk, hall, hdispatch, he',
    fun t ht w hw => ?_⟩
  have hsteady := ((Engine.dispatchOn_settles h.steady storage line disk).of_eq hdispatch).steady
  exact ((hsteady.table_settled t ht).of_mem_windows hw).unmarked

/-- A pattern between slashes. -/
theorem GlobalRequest.parse_slash (v : View) (inverted : Bool) (range : LineRange) (rest : List Char) :
    parse v inverted range ('/' :: rest) = do
      let pattern := Delimited.scan '/' rest
      let source ← Query.resolve pattern.body
      let matcher ← liftExcept (v.window.compile source false)
      Query.remember source
      Query.checkInterrupt
      let lines ← v.window.shownLines v.pool range.start range.stop
      let hits := lines.map fun line => matcher.isMatch line.2 != inverted
      if !hits.any id then throw .noLinesMarked
      return ⟨subcommandOf pattern.rest, hits⟩ := by
  unfold parse
  rw [Delimited.lift_readFirst, Delimited.first_slash]
  rfl

/-- The letter alone makes a line a global command. -/
theorem EditM.execute_global (tail : List Char) : execute ('g' :: tail) = (do
    modify fun e => { e with quitArmed := false }
    liftExcept (checkMode (← get).window.mode (some (.global false)))
    let range ← query fun v => v.locate false (some (.global false)) .default
    .done <$> runGlobal false range tail) := by
  unfold execute
  rw [CommandLine.lift_read, show CommandLine.parse ('g' :: tail) = _ from CommandLine.parse_letter (.global false) tail,
    liftExcept_ok, pure_bind]
  dsimp only
  rw [identify_letter (.global false), liftExcept_ok, pure_bind]
  rfl

/-- Of three lines the first and the last are handed out to be deleted. -/
theorem Engine.global_each_once_delete : ∃ e s visits outcome last origins e',
    (Engine.new ⟨1, 10, 100⟩).perform (.insertBulk 0 [97, 10, 98, 10, 97, 10]) = .ok e ∧
      s.rows = e.markedRows ⟨1, 3, 0⟩ ⟨['d'], [true, false, true]⟩ ∧
      Walk ['d'] s ((List.range s.rows.length).map some) 1 none visits outcome last origins ∧
      EachOnce s.rows visits outcome origins ∧
      e.dispatchOn FileTree.storage ['g', '/', 'a', '/', 'd'] .empty = .ok (outcome, e', .empty) ∧
      ∀ t ∈ e'.table.sessions, ∀ w ∈ t.windows, w.lines.Unmarked := by
  obtain ⟨e, hstart, hs⟩ :=
    (steady_new ⟨1, 10, 100⟩).perform (.insertBulk 0 [97, 10, 98, 10, 97, 10])
  have hr : e.Reachable := .call _ (.new _) hstart
  have hentry : ((Engine.new ⟨1, 10, 100⟩).perform (.insertBulk 0 [97, 10, 98, 10, 97, 10])).map
      Engine.entry = .ok none := by decide +kernel
  rw [hstart] at hentry
  have hn : e.entry = none := Except.ok.inj hentry
  have hparse : CommandLine.parse ['g', '/', 'a', '/', 'd'] =
      .ok ⟨.default, some 'g', ['/', 'a', '/', 'd']⟩ := CommandLine.parse_letter (.global false) _
  have hcmd : identify (some 'g') = .ok (some (.global false)) := identify_letter (.global false)
  have hfound : ((Engine.new ⟨1, 10, 100⟩).perform (.insertBulk 0 [97, 10, 98, 10, 97, 10]) >>=
      fun e => (e.run (EditM.readGlobal ['g', '/', 'a', '/', 'd'])).map fun r =>
        r.1.toOption.join).toOption = some (some (⟨1, 3, 0⟩, ⟨['d'], [true, false, true]⟩)) := by
    unfold EditM.readGlobal
    simp only [hparse, EditM.liftExcept_ok, pure_bind, hcmd, GlobalRequest.parse_slash]
    decide +kernel
  obtain ⟨⟨answer, e₁⟩, hrun, -⟩ :=
    EditM.readGlobal_ends ⟨hs, hn⟩ ['g', '/', 'a', '/', 'd']
  have hread : e.run (EditM.readGlobal ['g', '/', 'a', '/', 'd']) = .ok (answer, e₁) := hrun
  have hanswer : answer = .ok (some (⟨1, 3, 0⟩, ⟨['d'], [true, false, true]⟩)) := by
    rw [hstart] at hfound
    change ((e.run (EditM.readGlobal ['g', '/', 'a', '/', 'd'])).map fun r =>
      r.1.toOption.join).toOption = _ at hfound
    rw [hread] at hfound
    have hjoin := Option.some.inj hfound
    cases answer with
    | error err => cases hjoin
    | ok found => exact congrArg Except.ok hjoin
  have hline : EditM.withoutNewline ['g', '/', 'a', '/', 'd'] = ['g', '/', 'a', '/', 'd'] := rfl
  rw [hanswer, ← hline] at hread
  obtain ⟨s, visits, outcome, last, origins, e', hrows, hwalk, hall, hdispatch, -, hunmarked⟩ :=
    Reachable.global_each_once hr hn hread FileTree.storage .empty
  exact ⟨e, s, visits, outcome, last, origins, e', hstart, hrows, hwalk, hall, hdispatch, hunmarked⟩

end

end LineEditor
