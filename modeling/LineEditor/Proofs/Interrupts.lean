import LineEditor.Proofs.Globals
import LineEditor.Proofs.Heeding
import LineEditor.Proofs.Warnings

/-!
# Interrupted lines

A line that heeds a request to stop has changed nothing yet. This is least plain of a global command,
which runs others: but it looks for a request when it marks its lines, and from then on there is none
to be found, however often its walk looks again. So it is never stopped half way.
-/

namespace LineEditor

namespace Query

/-- Looks for a request to stop a number of times, as a loop does for each line it comes to. -/
def checkEach : Nat → Query Unit
  | 0 => pure ()
  | n + 1 => do
    checkInterrupt
    checkEach n

theorem checkInterrupt_passes (r : Recall) :
    Leads checkInterrupt r fun answer r' => ∀ a, answer = .ok a → r' = r ∧ r.interrupted = false := by
  unfold checkInterrupt
  rw [leads_get_bind]
  split
  · refine leads_modify_bind.mpr (leads_throw.mpr ?_)
    rintro _ ⟨⟩
  · rename_i hr
    exact leads_pure.mpr fun _ _ => ⟨rfl, Bool.eq_false_iff.mpr hr⟩

theorem run_checkEach {r : Recall} (hr : r.interrupted = false) (n : Nat) :
    (checkEach n).run.run r = .ok (.ok (), r) := by
  induction n with
  | zero => rfl
  | succ n ih =>
    have hcheck : checkInterrupt.run.run r = (pure () : Query Unit).run.run r := by
      show (if r.interrupted then _ else _ : Query Unit).run.run r = _
      rw [hr]
      rfl
    exact (run_bind_congr hcheck _).trans ih

/-- Where many lines are looked at, the first look decides: no request comes up in between. -/
theorem checkEach_eq (n : Nat) : checkEach n = if 0 < n then checkInterrupt else pure () := by
  cases n with
  | zero => rfl
  | succ n =>
    rw [if_pos n.succ_pos]
    refine ExceptT.ext (funext fun r => ?_)
    show (checkInterrupt >>= fun _ => checkEach n).run.run r = checkInterrupt.run.run r
    rw [← bind_pure checkInterrupt, bind_assoc]
    refine Leads.bind_congr ((checkInterrupt_passes r).mono fun answer r' h a ha => ?_)
    obtain ⟨rfl, hr⟩ := h a ha
    exact run_checkEach hr n

end Query

namespace LineMap

/-- How many lines are looked at, from line `n` on, to find the one to be visited next. From the end
the search goes on at the top, if there is any. -/
def lookedAt (m : LineMap) (n : Nat) : Nat :=
  match m.nextMarkedBehind? (n - 1) with
  | some k => k + 1 - n
  | none => m.length + 1 - n + (m.nextMarkedBehind? 0).getD 0

end LineMap

namespace EditM

/-- Visits the marked lines, and looks for a request to stop at each line on the way. -/
def watchMarked (text : List Char) : Nat → Nat → Option Nat → EditM Report
  | 0, n, _ => do
    let m := (← get).window.lines
    query fun _ => Query.checkEach (m.lookedAt n)
    return .clean
  | fuel + 1, n, lastModified => do
    let m := (← get).window.lines
    query fun _ => Query.checkEach (m.lookedAt n)
    match m.nextMarked? n with
    | none => return .clean
    | some n =>
      let report ← visit text n lastModified
      let dot := (← get).window.dot
      let rest ← watchMarked text fuel (if report.shapeChanged then n else n + 1)
        (if report.changed then some dot else lastModified)
      return report.followedBy rest

/-- A global command that looks for a request to stop on its walk too. -/
def watchGlobal (inverted : Bool) (range : LineRange) (tail : List Char) : EditM Report := do
  let request ← query fun v => GlobalRequest.parse v inverted range tail
  modifyWindow fun w => { w with lines := w.lines.markRun (range.start - 1) request.hits }
  snapshot
  let outcome ← attempt (watchMarked request.subcommand (← get).window.lines.markedCount 1 none)
  modifyWindow Window.clearMarks
  liftExcept outcome

/-! ## Global commands -/

section
variable {e : Engine}

theorem visit_heeds (h : e.interrupted = false) (text : List Char) (n : Nat) (last : Option Nat) :
    Leads (visit text n last) e (Heeds Engine.interrupted e) := by
  unfold visit
  rw [leads_modifyWindow_bind]
  refine (heedful_onWindow _ _).then (fun _ e₁ h₁ => ?_) fun _ _ h₁ => h₁
  rw [leads_bind, leads_attempt]
  refine (heedful_runSubcommand text e₁).mono fun answer e₂ h₂ => ?_
  rw [Post.after_ok]
  cases answer with
  | ok report => exact leads_pure.mpr (h₂.trans h₁)
  | error err =>
    -- nobody asked for a stop, so the subcommand was not stopped
    obtain ⟨-, hraised, -⟩ | ⟨hcause, hsame⟩ := h₂
    · rw [h₁] at hraised
      exact absurd (hraised.symm.trans h) (by simp)
    · have hstands := hsame.trans h₁
      split
      · exact leads_pure.mpr hstands
      · exact leads_pure.mpr hstands
      · rename_i cause _ heq
        cases heq
        exact leads_throw.mpr (.inr ⟨hcause, hstands⟩)

theorem visitMarked_heeds (h : e.interrupted = false) (text : List Char) (fuel n : Nat)
    (last : Option Nat) : Leads (visitMarked text fuel n last) e (Heeds Engine.interrupted e) := by
  -- on the number of visits that may come; none of them finds a request
  induction fuel generalizing e n last with
  | zero => exact leads_pure.mpr rfl
  | succ fuel ih =>
    unfold visitMarked
    rw [leads_get_bind]
    cases e.window.lines.nextMarked? n with
    | none => exact leads_pure.mpr rfl
    | some k =>
      refine (visit_heeds h text k last).then (fun report e₁ h₁ => ?_) fun _ _ h₁ => h₁
      rw [leads_get_bind]
      refine (ih (h₁.trans h) _ _).then (fun rest e₂ h₂ => ?_) fun _ _ h₂ => h₂.before h₁
      exact leads_pure.mpr (h₂.trans h₁)

theorem heedful_parse (v : View) (inverted : Bool) (range : LineRange) (tail : List Char) :
    Heedful Recall.interrupted (GlobalRequest.parse v inverted range tail) := by
  unfold GlobalRequest.parse
  rw [Delimited.lift_readFirst]
  refine (Heedful.liftExcept (Delimited.first_reads tail)).bind fun d => ?_
  refine (Query.heedful_resolve _).bind fun source => ?_
  refine (Heedful.liftExcept (v.window.compile_reads source false)).bind fun matcher => ?_
  refine (Query.heedful_remember source).bind fun _ => Query.heedful_checkInterrupt.bind fun _ => ?_
  refine (Heedful.lift _).bind fun lines => ?_
  dsimp only
  split
  · exact .throw rfl
  · exact .pure _

/-- When the lines are known that are to be visited, there is no request to stop. -/
theorem parse_passes (v : View) (inverted : Bool) (range : LineRange) (tail : List Char)
    (r : Recall) : Leads (GlobalRequest.parse v inverted range tail) r fun answer r' =>
      ∀ request, answer = .ok request → r'.interrupted = false := by
  have herr {α : Type} (err : EditError) (r' : Recall) (request : α) :
      (.error err : Except EditError α) = .ok request → r'.interrupted = false := by
    rintro ⟨⟩
  unfold GlobalRequest.parse
  rw [Delimited.lift_readFirst]
  refine leads_after (herr · ·) fun d _ => leads_after (herr · ·) fun source _ => ?_
  refine leads_after (herr · ·) fun matcher _ => leads_after (herr · ·) fun _ r₁ => ?_
  refine (Query.checkInterrupt_passes r₁).then (fun _ r₂ h₂ => ?_) fun err r₂ _ => herr err r₂
  obtain ⟨rfl, hr⟩ := h₂ _ rfl
  refine leads_bind.mpr (leads_lift.mpr fun lines _ => ?_)
  rw [Post.after_ok]
  dsimp only
  split
  · exact leads_throw.mpr (herr _ _)
  · exact leads_pure.mpr fun _ _ => hr

theorem heedful_runGlobal (inverted : Bool) (range : LineRange) (tail : List Char) :
    Heedful Engine.interrupted (runGlobal inverted range tail) := by
  intro e
  unfold runGlobal
  have hread := heedful_query (fun v => heedful_parse v inverted range tail) e
  have hpasses : Leads (query fun v => GlobalRequest.parse v inverted range tail) e
      fun answer e' => ∀ request, answer = .ok request → e'.interrupted = false :=
    leads_query.mpr (parse_passes e.view inverted range tail e.remembered)
  refine (hread.and hpasses).then (fun request e₁ ⟨h₁, hnone⟩ => ?_) fun _ _ h₁ => h₁.1
  have hclear := hnone _ rfl
  refine Leads.mono ?_ fun _ _ h => Heeds.before h h₁
  rw [leads_modifyWindow_bind]
  refine (heedful_snapshot _).then (fun _ e₂ h₂ => ?_) fun _ _ h₂ => h₂
  rw [leads_get_bind, leads_bind, leads_attempt]
  refine (visitMarked_heeds (h₂.trans hclear) _ _ _ _).mono fun outcome e₃ h₃ => ?_
  rw [Post.after_ok, leads_modifyWindow_bind, leads_liftExcept]
  have hstands := h₃.before h₂
  cases outcome with
  | ok report => exact hstands
  | error err => exact hstands

/-! ## Watchful walks -/

theorem run_checkEach_bind (h : e.interrupted = false) (n : Nat) (rest : EditM α) :
    (query (fun _ => Query.checkEach n) >>= fun _ => rest).run.run e = rest.run.run e := by
  have hlook : (query fun _ => Query.checkEach n).run.run e = (pure () : EditM Unit).run.run e := by
    rw [run_query, Query.run_checkEach h]
    rfl
  exact run_bind_congr hlook _

theorem run_attempt_congr {x y : EditM α} (h : x.run.run e = y.run.run e) :
    (attempt x).run.run e = (attempt y).run.run e := by
  rw [run_attempt, run_attempt, h]

theorem run_watchMarked (h : e.interrupted = false) (text : List Char) (fuel n : Nat)
    (last : Option Nat) :
    (watchMarked text fuel n last).run.run e = (visitMarked text fuel n last).run.run e := by
  induction fuel generalizing e n last with
  | zero => exact run_checkEach_bind h _ _
  | succ fuel ih =>
    unfold watchMarked visitMarked
    refine (run_checkEach_bind h _ _).trans ?_
    show _ = (match e.window.lines.nextMarked? n with
      | none => _
      | some n => _ : EditM Report).run.run e
    cases e.window.lines.nextMarked? n with
    | none => rfl
    | some k =>
      refine Leads.bind_congr ((visit_heeds h text k last).mono fun answer e₁ h₁ report hreport => ?_)
      subst hreport
      exact run_bind_congr (ih (h₁.trans h) _ _) _

/-- Once the lines are marked, it makes no difference how often a request to stop is looked for. -/
theorem watchGlobal_eq (inverted : Bool) (range : LineRange) (tail : List Char) :
    watchGlobal inverted range tail = runGlobal inverted range tail := by
  refine ExceptT.ext (funext fun e => ?_)
  unfold watchGlobal runGlobal
  have hpasses : Leads (query fun v => GlobalRequest.parse v inverted range tail) e
      fun answer e' => ∀ request, answer = .ok request → e'.interrupted = false :=
    leads_query.mpr (parse_passes e.view inverted range tail e.remembered)
  refine Leads.bind_congr (hpasses.mono fun answer e₁ hnone request hrequest => ?_)
  have hclear := hnone request hrequest
  refine Leads.bind_congr ((heedful_modifyWindow _ e₁).mono fun answer e₂ h₂ _ ha => ?_)
  subst ha
  refine Leads.bind_congr ((heedful_snapshot e₂).mono fun answer e₃ h₃ _ ha => ?_)
  subst ha
  have hwalk := run_watchMarked (h₃.trans (h₂.trans hclear)) request.subcommand
    e₃.window.lines.markedCount 1 none
  exact run_bind_congr (run_attempt_congr hwalk) _

end

end EditM

/-! ## Lines of input -/

namespace Engine

/-- Whatever the file system answers, a request to stop is heeded or stands when the line ends. -/
def Attends (e : Engine) : Post Engine Progress := Brings fun _ => Heeds Engine.interrupted e

/-- Nothing of any window or record is different but the patterns that the current window
remembers. -/
structure Spared (e e' : Engine) : Prop where
  pool_eq : e'.pool = e.pool
  slot_eq : e'.slot = e.slot
  others_eq : e'.others = e.others
  below_eq : e'.session.below = e.session.below
  undo_eq : e'.session.undo = e.session.undo
  window_stands : e.window.Stands e'.window

theorem Unaltered.spared {e e' : Engine} (h : e.Unaltered e') : e.Spared e' := by
  rw [h.eq]
  exact ⟨rfl, rfl, rfl, rfl, rfl, rfl⟩

end Engine

namespace EditM

section
variable {e : Engine}

theorem attends_done {x : EditM Report} (hx : Heedful Engine.interrupted x) (e : Engine) :
    Leads (.done <$> x) e e.Attends :=
  leads_done (hx e)

theorem attends_report (report : Report) (e : Engine) :
    Leads (return .done report) e e.Attends :=
  leads_pure.mpr rfl

theorem attends_bind {x : EditM α} {f : α → EditM Progress} (hx : Heedful Engine.interrupted x)
    (hf : ∀ a e', Leads (f a) e' e'.Attends) (e : Engine) : Leads (x >>= f) e e.Attends :=
  (hx e).then
    (fun a e₁ h₁ => (hf a e₁).mono fun _ _ h => Engine.Brings.mono h fun _ _ _ h₂ => h₂.before h₁)
    fun _ _ h₁ => h₁

theorem runEdit_attends (tail : List Char) (e : Engine) : Leads (runEdit tail) e e.Attends := by
  have hload (path : List Char) (onTop : Bool) (e : Engine) :
      Leads (return .load path fun answer => do
        showLoaded path onTop (← liftExcept (ofStorage path answer))) e e.Attends :=
    leads_pure.mpr fun answer => ((Heedful.liftExcept (ofStorage_reads path answer)).bind fun loaded =>
      heedful_showLoaded path onTop loaded) e
  unfold runEdit
  dsimp only
  split
  · exact attends_bind .get (fun _ => attends_report _) e
  · split
    · exact attends_bind (heedful_editSession _) attends_report e
    · rw [leads_get_bind]
      split
      · exact attends_bind (heedful_guardUnsaved _) (fun _ => hload _ _) e
      · exact hload _ _ e

theorem runRead_attends (range : LineRange) (tail : List Char) (e : Engine) :
    Leads (runRead range tail) e e.Attends := by
  unfold runRead
  refine attends_bind (heedful_targetFile tail) (fun path e₁ => ?_) e
  refine leads_pure.mpr fun answer => ?_
  exact ((Heedful.liftExcept (ofStorage_reads path answer)).bind fun bytes =>
    heedful_insertFile path range.stop bytes) e₁

theorem runWrite_attends (range : LineRange) (tail : List Char) (e : Engine) :
    Leads (runWrite range tail) e e.Attends := by
  have hwrite (append : Bool) (rest : List Char) : Leads (do
      let path ← targetFile rest
      let bytes ← extractRange range.start range.stop
      return Progress.write path bytes append fun answer => do
        noteWritten path range append (← liftExcept (ofStorage path answer))) e e.Attends := by
    refine attends_bind (heedful_targetFile rest) (fun path => ?_) e
    refine attends_bind (heedful_extractRange _ _) fun bytes e₁ => leads_pure.mpr fun answer => ?_
    exact ((Heedful.liftExcept (ofStorage_reads path answer)).bind fun count =>
      heedful_noteWritten path range append count) e₁
  unfold runWrite
  dsimp only
  exact hwrite _ _

theorem runCommand_attends (cmd : Option Command) (range : LineRange) (tail : List Char)
    (e : Engine) : Leads (runCommand cmd range tail) e e.Attends := by
  have hbare (letter : Char) {rest : EditM Report} (hrest : Heedful Engine.interrupted rest) :
      Leads (.done <$> do
        liftExcept (noTail letter tail)
        rest) e e.Attends :=
    attends_done ((Heedful.liftExcept (noTail_reads letter tail)).bind fun _ => hrest) e
  unfold runCommand
  cases cmd with
  | none => exact attends_done (heedful_runLine false none range tail) e
  | some cmd =>
    cases cmd with
    | line c => exact attends_done (heedful_runLine false (some c) range tail) e
    | append => exact hbare _ (heedful_beginEntry _ _)
    | insert => exact hbare _ (heedful_beginEntry _ _)
    | change => exact hbare _ ((Heedful.lift _).bind fun place => heedful_beginEntry place _)
    | global inverted => exact attends_done (heedful_runGlobal inverted range tail) e
    | undo => exact hbare _ (heedful_undo.bind fun _ => .pure _)
    | edit => exact runEdit_attends tail e
    | quit => exact attends_done (heedful_runQuit tail) e
    | back => exact hbare _ (heedful_popWindow.bind fun _ => .pure _)
    | moveSession =>
      refine attends_done ((Heedful.liftExcept (slotArgument_reads tail)).bind fun target => ?_) e
      exact (heedful_moveSession target).bind fun _ => .pure _
    | fileName => exact attends_done (heedful_runFileName tail) e
    | read => exact runRead_attends range tail e
    | write => exact runWrite_attends range tail e

theorem execute_attends (text : List Char) (e : Engine) : Leads (execute text) e e.Attends := by
  unfold execute
  rw [CommandLine.lift_read]
  refine attends_bind (.liftExcept (CommandLine.parse_reads text)) (fun line => ?_) e
  refine attends_bind (.liftExcept (identify_reads line.letter)) fun cmd => ?_
  have hrun : ∀ e : Engine, Leads (do
      liftExcept (checkMode (← get).window.mode cmd)
      let range ← query fun v => v.locate false cmd line.range
      runCommand cmd range line.tail) e e.Attends := by
    refine attends_bind .get fun e => attends_bind (.liftExcept (checkMode_reads _ cmd)) fun _ => ?_
    exact attends_bind (heedful_query fun v => v.heedful_locate false cmd line.range) fun range =>
      runCommand_attends cmd range line.tail
  intro e
  dsimp only
  split
  · refine attends_bind (.modify ?_) (fun _ => hrun) e
    exact fun _ => rfl
  · exact hrun e

theorem dispatch_attends (line : List Char) (e : Engine) : Leads (dispatch line) e e.Attends := by
  unfold dispatch
  rw [leads_get_bind]
  split
  · rename_i entry _
    exact attends_done (heedful_typeLine entry _) e
  · exact execute_attends _ e

end

end EditM

namespace Engine

section
variable {e e' : Engine} {storage : Storage σ} {line : List Char} {disk disk' : σ}
  {answer : Except EditError Report}

theorem dispatchOn_heeds (hrun : e.dispatchOn storage line disk = .ok (answer, e', disk')) :
    Heeds Engine.interrupted e answer e' :=
  dispatchOn_brings (EditM.dispatch_attends line e) hrun

/-- A request to stop is neither lost nor made up. A line comes to an end; where nobody asked for a
stop, nobody is stopped. Where somebody did, the line heeds it before it changes anything, and the
request is done with; or the line ends in another way, and the request stands. Looking for a request
at each of some lines is looking once, and a global command that looks on its walk too finds none. -/
theorem Reachable.request_heeded (h : e.Reachable) (storage : Storage σ) (line : List Char)
    (disk : σ) : (∃ answer e' disk', e.dispatchOn storage line disk = .ok (answer, e', disk') ∧
      (e.interrupted = false →
        e'.interrupted = false ∧ ∀ err, answer = .error err → err.isStop = false) ∧
      (e.interrupted = true →
        (answer = .error .interrupted ∧ e'.interrupted = false ∧ e.Spared e') ∨
        (e'.interrupted = true ∧ ∀ err, answer = .error err → err.isStop = false))) ∧
    (∀ n, 0 < n → Query.checkEach n = Query.checkInterrupt) ∧
    ∀ inverted range tail,
      EditM.watchGlobal inverted range tail = EditM.runGlobal inverted range tail := by
  refine ⟨?_, fun n hn => (Query.checkEach_eq n).trans (if_pos hn), EditM.watchGlobal_eq⟩
  obtain ⟨⟨answer, e', disk'⟩, hrun, hsettles⟩ := dispatchOn_settles h.steady storage line disk
  have hheeds := dispatchOn_heeds hrun
  refine ⟨answer, e', disk', hrun, fun hdown => ?_, fun hup => ?_⟩
  · cases answer with
    | ok report => exact ⟨Eq.trans hheeds hdown, by rintro _ ⟨⟩⟩
    | error err =>
      obtain ⟨-, hup, -⟩ | ⟨hcause, hsame⟩ := hheeds
      · rw [hdown] at hup
        cases hup
      · refine ⟨hsame.trans hdown, ?_⟩
        rintro _ ⟨⟩
        exact hcause
  · cases answer with
    | ok report => exact .inr ⟨Eq.trans hheeds hup, by rintro _ ⟨⟩⟩
    | error err =>
      obtain ⟨rfl, -, hcleared⟩ | ⟨hcause, hsame⟩ := hheeds
      · exact .inl ⟨rfl, hcleared, Unaltered.spared hsettles.2⟩
      · refine .inr ⟨hsame.trans hup, ?_⟩
        rintro _ ⟨⟩
        exact hcause

/-- A line that would delete both lines of a window is stopped by a request made before it. -/
theorem request_heeded_delete : ∃ e e' disk',
    (Engine.new ⟨1, 10, 100⟩).perform (.insertBulk 0 [97, 10, 97, 10]) = .ok e ∧
    e.interrupt.dispatchOn FileTree.storage ['g', '/', 'a', '/', 'd'] .empty =
      .ok (.error .interrupted, e', disk') ∧
    e'.interrupted = false ∧ e.interrupt.Spared e' := by
  obtain ⟨e, hstart, -⟩ := (steady_new ⟨1, 10, 100⟩).perform (.insertBulk 0 [97, 10, 97, 10])
  have hr : e.interrupt.Reachable := .call .interrupt (.call _ (.new _) hstart) rfl
  obtain ⟨⟨answer, e', disk', hline, -, hup⟩, -⟩ :=
    Reachable.request_heeded hr FileTree.storage ['g', '/', 'a', '/', 'd'] FileTree.empty
  have hvalue : ((Engine.new ⟨1, 10, 100⟩).perform (.insertBulk 0 [97, 10, 97, 10]) >>= fun e =>
      (e.interrupt.dispatchOn FileTree.storage ['g', '/', 'a', '/', 'd'] .empty).map fun r =>
        r.2.1.interrupted).toOption = some false := by
    have hwhole : EditM.withoutNewline ['g', '/', 'a', '/', 'd'] = ['g', '/', 'a', '/', 'd'] := rfl
    unfold Engine.dispatchOn EditM.dispatch
    simp only [hwhole, EditM.execute_global, EditM.runGlobal, GlobalRequest.parse_slash]
    decide +kernel
  rw [hstart] at hvalue
  change ((e.interrupt.dispatchOn FileTree.storage ['g', '/', 'a', '/', 'd'] .empty).map _).toOption =
    _ at hvalue
  rw [hline] at hvalue
  have hcleared : e'.interrupted = false := Option.some.inj hvalue
  obtain ⟨rfl, -, hspared⟩ | ⟨hstands, -⟩ := hup rfl
  · exact ⟨e, e', disk', hstart, hline, hcleared, hspared⟩
  · rw [hcleared] at hstands
    cases hstands

end

end Engine

end LineEditor
