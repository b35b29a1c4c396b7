import LineEditor.Proofs.Elsewhere
import LineEditor.Proofs.Globals

/-!
# Records that are kept

What does not change the text leaves the record of the session as it is, so that `u` still takes back
the last change of the text. Global commands are the exception: whether their subcommands will change
anything is not known when the window has to be recorded.
-/

namespace LineEditor

/-- A command was done without changing the text, or refused, and not half way. -/
def ChangedNothing : Except EditError Report → Prop
  | .ok report => report.changed = false
  | .error err => err.isPartial = false

/-- Whether a command runs other commands on each line of some. -/
def Command.isGlobal : Command → Bool
  | global _ => true
  | _ => false

namespace Engine

/-- The record of the current session and all stored lines are as they were. -/
structure SameRecord (e e' : Engine) : Prop where
  undo_eq : e'.session.undo = e.session.undo
  pool_eq : e'.pool = e.pool

/-- What is done without changing the text leaves the record as it was. -/
def KeepsRecord (e : Engine) : Post Engine Report
  | .ok report, e' => report.changed = false → e.SameRecord e'
  | .error _, _ => True

section
variable {e e' e'' : Engine}

theorem SameRecord.refl (e : Engine) : e.SameRecord e := ⟨rfl, rfl⟩

theorem SameRecord.trans (h : e.SameRecord e') (h' : e'.SameRecord e'') : e.SameRecord e'' :=
  ⟨h'.undo_eq.trans h.undo_eq, h'.pool_eq.trans h.pool_eq⟩

theorem SameRecord.keeps (h : e.SameRecord e') {answer : Except EditError Report}
    (h' : e'.KeepsRecord answer e'') : e.KeepsRecord answer e'' := by
  cases answer with
  | ok report => exact fun hc => h.trans (h' hc)
  | error err => exact trivial

theorem sameRecord_begun (e : Engine) (cmd : Option Command) (r : Recall) :
    e.SameRecord ((e.begun cmd).withRecall r) := by
  rw [begun_eq]
  exact ⟨rfl, rfl⟩

theorem Unaltered.sameRecord (h : e.Unaltered e') : e.SameRecord e' := by
  have heq := h.eq
  exact ⟨by rw [heq]; rfl, by rw [heq]; rfl⟩

end

end Engine

namespace EditM

section
variable {e e' : Engine}

/-! ## Commands in the current window -/

theorem keeps_changed (shape : Bool) (output : List String) :
    Leads (pure (Report.ofEdit shape output)) e' e.KeepsRecord :=
  leads_pure.mpr fun hc => by cases hc

theorem keeps_after {x : EditM α} {f : α → EditM Report}
    (hf : ∀ a e₁, Leads (f a) e₁ e.KeepsRecord) : Leads (x >>= f) e' e.KeepsRecord :=
  leads_after (fun _ _ => trivial) hf

theorem carryOut_keeps (plan : Plan) : Leads (carryOut false plan) e e.KeepsRecord := by
  unfold carryOut
  cases plan with
  | look dot output =>
    cases dot with
    | none => exact leads_pure.mpr fun _ => .refl e
    | some n =>
      refine leads_onWindow_bind.mpr fun w p hgoto => ?_
      obtain ⟨w', -, heq⟩ := bind_eq_ok.mp hgoto
      cases heq
      exact leads_pure.mpr fun _ => ⟨rfl, rfl⟩
  | label name line => exact leads_modifyWindow_bind.mpr (leads_pure.mpr fun _ => ⟨rfl, rfl⟩)
  | edit change shape print =>
    -- the record is made here, and a change is reported
    exact keeps_after fun _ _ => keeps_after fun _ _ => keeps_after fun _ _ => keeps_changed _ _

theorem runLine_keeps (cmd : Option LineCommand) (range : LineRange) (tail : List Char) :
    Leads (runLine false cmd range tail) e e.KeepsRecord := by
  unfold runLine
  rw [leads_bind, leads_query]
  intro answer r _
  cases answer with
  | ok plan =>
    have hsame : e.SameRecord (e.withRecall r) := ⟨rfl, rfl⟩
    exact (carryOut_keeps plan).mono fun _ _ => hsame.keeps
  | error err => exact trivial

theorem commitEntry_keeps (entry : TextEntry) : Leads (commitEntry entry) e e.KeepsRecord := by
  unfold commitEntry
  rw [leads_get_bind]
  split
  · exact leads_pure.mpr fun _ => .refl e
  · refine leads_bind.mpr (leads_lift.mpr fun removed _ => ?_)
    rw [Post.after_ok]
    split
    · exact leads_pure.mpr fun _ => .refl e
    · split
      · exact keeps_after fun _ _ => keeps_after fun _ _ => keeps_after fun _ _ => keeps_changed _ _
      · exact keeps_after fun _ _ => keeps_after fun _ _ => keeps_changed _ _

theorem typeLine_keeps (entry : TextEntry) (text : List Char) :
    Leads (typeLine entry text) e e.KeepsRecord := by
  unfold typeLine
  split
  · rw [leads_modify_bind]
    have hsame : e.SameRecord { e with entry := none } := ⟨rfl, rfl⟩
    exact (commitEntry_keeps entry).mono fun _ _ => hsame.keeps
  · rw [leads_modify_bind]
    exact leads_pure.mpr fun _ => ⟨rfl, rfl⟩

theorem beginEntry_keeps (after : Nat) (replace : Option (Nat × Nat)) :
    Leads (beginEntry after replace) e e.KeepsRecord := by
  unfold beginEntry
  rw [leads_modify_bind]
  exact leads_pure.mpr fun _ => ⟨rfl, rfl⟩

theorem runFileName_keeps (tail : List Char) : Leads (runFileName tail) e e.KeepsRecord := by
  unfold runFileName
  dsimp only
  split
  case' isTrue => rw [leads_modifyWindow_bind]
  all_goals
    rw [leads_get_bind]
    split
    · exact leads_pure.mpr fun _ => ⟨rfl, rfl⟩
    · exact leads_throw.mpr trivial

theorem insertFile_keeps (path : List Char) (place : Nat) (bytes : Bytes) :
    Leads (insertFile path place bytes) e e.KeepsRecord := by
  unfold insertFile checkCapacity
  rw [bind_assoc, leads_get_bind]
  refine leads_reads (e.view.checkCapacity_reads _) (fun _ _ => ?_) fun _ => trivial
  unfold rememberFile
  rw [leads_modifyWindow_bind]
  split
  · exact leads_pure.mpr fun _ => ⟨rfl, rfl⟩
  · exact keeps_after fun _ _ => keeps_after fun _ _ => keeps_after fun _ _ => keeps_changed _ _

theorem runRead_keeps (range : LineRange) (tail : List Char) :
    Leads (runRead range tail) e (Engine.Brings fun _ => e.KeepsRecord) := by
  unfold runRead
  refine (targetFile_ends tail).leads.then ?_ fun _ _ _ => trivial
  rintro path _ ⟨rfl, -⟩
  refine leads_pure.mpr fun answer => ?_
  exact leads_reads (ofStorage_reads path answer) (fun bytes _ => insertFile_keeps path _ bytes)
    fun _ => trivial

theorem runCommand_keeps {cmd : Option Command} (hcmd : worksInPlace cmd = true)
    (hglobal : cmd.any Command.isGlobal = false) (range : LineRange) (tail : List Char) :
    Leads (runCommand cmd range tail) e (Engine.Brings fun _ => e.KeepsRecord) := by
  unfold runCommand
  cases cmd with
  | none => exact leads_done (runLine_keeps none range tail)
  | some cmd =>
    cases cmd with
    | line c => exact leads_done (runLine_keeps (some c) range tail)
    | append =>
      exact leads_done (leads_reads (noTail_reads _ tail) (fun _ _ => beginEntry_keeps _ _) fun _ => trivial)
    | insert =>
      exact leads_done (leads_reads (noTail_reads _ tail) (fun _ _ => beginEntry_keeps _ _) fun _ => trivial)
    | change =>
      refine leads_done (leads_reads (noTail_reads _ tail) (fun _ _ => ?_) fun _ => trivial)
      refine leads_bind.mpr (leads_lift.mpr fun place _ => ?_)
      exact beginEntry_keeps _ _
    | global inverted => cases hglobal
    | fileName => exact leads_done (runFileName_keeps tail)
    | read => exact runRead_keeps range tail
    | _ => cases hcmd

theorem dispatch_keeps {line : List Char} (hcmd : ∀ q, e.asks line = some q →
      worksInPlace q.command = true ∧ q.command.any Command.isGlobal = false) :
    Leads (dispatch line) e (Engine.Brings fun _ => e.KeepsRecord) := by
  unfold dispatch
  rw [leads_get_bind]
  split
  · exact leads_done (typeLine_keeps _ _)
  · rename_i hn
    refine execute_leads (fun _ _ => trivial) (fun _ _ _ _ => trivial) fun q hq range _ _ r => ?_
    obtain ⟨hwork, hglobal⟩ := hcmd q (Engine.asks_eq_some.mpr ⟨hn, hq⟩)
    exact (runCommand_keeps hwork hglobal range q.tail).mono fun _ _ hb =>
      hb.mono fun _ _ _ => (e.sameRecord_begun q.command r).keeps

/-! ## Global commands -/

theorem dispatch_records (h : e.Steady) {line : List Char} {q : Request} (hq : e.asks line = some q)
    (hglobal : q.command.any Command.isGlobal = true) :
    Leads (dispatch line) e
      (Engine.Brings fun _ answer e' => ∀ report, answer = .ok report → e.Recorded e') := by
  obtain ⟨hn, -⟩ := Engine.asks_eq_some.mp hq
  refine dispatch_asked hq (fun err r report hr => by cases hr) fun range _ _ r => ?_
  cases hcmd : q.command with
  | none =>
    rw [hcmd] at hglobal
    cases hglobal
  | some cmd =>
    rw [hcmd] at hglobal
    cases cmd with
    | global inverted =>
      have hidle := (Engine.Idle.mk h hn).begun (some (.global inverted)) r
      have hready : ((e.begun (some (.global inverted))).withRecall r).Ready := ⟨hidle, rfl⟩
      refine leads_done ((runGlobal_records hready inverted range q.tail).leads.mono fun answer e' hp => ?_)
      rintro report rfl
      exact hp.2.of_recordOf_eq rfl rfl
    | _ => cases hglobal

end

end EditM

namespace Engine

section
variable {e e' : Engine}

/-! ## Other commands -/

/-- Whatever else is done without going to another window has nothing to do with the record. -/
theorem Effect.sameRecord (h : e.Shelved fun _ => none) {cmd : Option Command} {range : LineRange}
    {tail : List Char} {x : Traffic} {report : Report}
    (heff : e.Effect cmd range tail x (.ok report) e') (hcmd : EditM.worksInPlace cmd = false)
    (hundo : cmd ≠ some .undo) (hid : e'.window.id = e.window.id) : e.SameRecord e' := by
  rcases heff.stays h hcmd hid with hundone | hstays
  · exact absurd hundone hundo
  · exact ⟨hstays.undo_eq, hstays.pool_eq⟩

/-! ## Undoing afterwards -/

/-- What `u` brings back: the record of the session, if it is one of the current window. -/
def restorable (e : Engine) : Option UndoRecord :=
  e.session.undo.record.filter fun r => r.window == e.window.id

theorem SameRecord.restorable_eq (h : e.SameRecord e') (hid : e'.window.id = e.window.id) :
    e'.restorable = e.restorable := by
  unfold restorable
  rw [h.undo_eq, hid]

theorem restorable_eq_some {r : UndoRecord} :
    e.restorable = some r ↔ e.session.undo.record = some r ∧ r.window = e.window.id := by
  unfold restorable
  rw [Option.filter_eq_some_iff, beq_iff_eq]

theorem undo_nothing (hn : e.restorable = none) :
    Ends EditM.undo e fun answer e' => answer = .error .nothingToUndo ∧ e' = e := by
  have hundo : e.session.undo.undo? e.window = none := by
    unfold UndoSlot.undo?
    cases hr : e.session.undo.record with
    | none => rfl
    | some r =>
      refine if_neg fun hid => ?_
      rw [restorable_eq_some.mpr ⟨hr, hid⟩] at hn
      cases hn
  unfold EditM.undo
  rw [ends_get_bind, hundo]
  exact ends_throw.mpr ⟨rfl, rfl⟩

theorem dispatchOn_undo_line (h : e.Idle) (s : Storage σ) (disk : σ) :
    e.dispatchOn s ['u'] disk = .ok (match e.restorable with
      | some r => (.ok (.ofSwitch []), e.disarmed.undone r, disk)
      | none => (.error .nothingToUndo, e.disarmed, disk)) := by
  cases hr : e.restorable with
  | none =>
    have hnone : e.disarmed.restorable = none := hr
    exact dispatchOn_of_undo h (undo_nothing hnone) s disk
  | some r =>
    obtain ⟨hrec, hid⟩ := restorable_eq_some.mp hr
    have hundo : Ends EditM.undo e.disarmed fun answer e' =>
        answer = .ok () ∧ e' = e.disarmed.undone r :=
      (undo_known (e := e.disarmed) hrec hid).of_sure fun _ _ heq => ⟨rfl, heq⟩
    exact dispatchOn_of_undo h hundo s disk

/-! ## Lines -/

theorem Steady.sameRecord (hs : e.Steady) (h : e.Shelved fun _ => none) {storage : Storage σ}
    {line : List Char} {disk disk' : σ} {report : Report}
    (hrun : e.dispatchOn storage line disk = .ok (.ok report, e', disk'))
    (hchanged : report.changed = false) (hid : e'.window.id = e.window.id)
    (hundo : ∀ q, e.asks line = some q → q.command ≠ some .undo)
    (hglobal : ∀ q, e.asks line = some q → q.command.any Command.isGlobal = false) :
    e.SameRecord e' := by
  have hinPlace (hwork : ∀ q, e.asks line = some q → EditM.worksInPlace q.command = true) :
      e.SameRecord e' :=
    dispatchOn_brings (EditM.dispatch_keeps fun q hq => ⟨hwork q hq, hglobal q hq⟩) hrun hchanged
  -- `Effect` says little of the commands that work in the window: for them the program is followed
  cases dispatchOn_turns hs hrun with
  | typed hnone =>
    refine hinPlace fun q hq => ?_
    rw [hnone] at hq
    cases hq
  | @ran q range _ _ _ r hq hrange heff =>
    cases hwork : EditM.worksInPlace q.command with
    | true =>
      refine hinPlace fun q' hq' => ?_
      cases hq.symm.trans hq'
      exact hwork
    | false =>
      have hsame := e.sameRecord_begun q.command r
      have hid' := hid.trans (e.begun_id q.command r).symm
      exact hsame.trans (heff.sameRecord (h.begun _ r) hwork (hundo q hq) hid')

/-- The line is a global command that found lines to visit and visited all of them. -/
def RanGlobal (e : Engine) (line : List Char) (answer : Except EditError Report) : Prop :=
  (∃ q, e.asks line = some q ∧ q.command.any Command.isGlobal = true) ∧ ∃ report, answer = .ok report

/-- A line that changes nothing, whatever it is but `u` and a global command, leaves the record as it
was, so that a `u` that follows brings back what it would have brought back before. A global command
has made a record of the window as it was when the line came, changed or not. -/
theorem Reachable.record_kept (h : e.Reachable) {storage : Storage σ} {line : List Char}
    {disk disk' : σ} {answer : Except EditError Report}
    (hrun : e.dispatchOn storage line disk = .ok (answer, e', disk'))
    (hanswer : ChangedNothing answer) (hid : e'.window.id = e.window.id)
    (hundo : ∀ q, e.asks line = some q → q.command ≠ some .undo) :
    (¬ e.RanGlobal line answer → e.SameRecord e' ∧
      (e'.entry = none → ∀ {τ : Type} (s : Storage τ) d, e'.dispatchOn s ['u'] d =
        .ok (match e.restorable with
          | some r => (.ok (.ofSwitch []), e'.disarmed.undone r, d)
          | none => (.error .nothingToUndo, e'.disarmed, d)))) ∧
    (e.RanGlobal line answer → e.Recorded e') := by
  have hs := h.steady
  have hsettled := (dispatchOn_settles hs storage line disk).of_eq hrun
  constructor
  · intro hglobal
    have hsame : e.SameRecord e' := by
      cases answer with
      | error err =>
        have hrefused := hsettled.2
        rw [show err.isPartial = false from hanswer] at hrefused
        exact Unaltered.sameRecord hrefused
      | ok report =>
        refine hs.sameRecord h.shelved hrun hanswer hid hundo fun q hq => ?_
        exact Bool.eq_false_iff.mpr fun hcmd => hglobal ⟨⟨q, hq, hcmd⟩, report, rfl⟩
    refine ⟨hsame, fun hn τ s d => ?_⟩
    rw [← hsame.restorable_eq hid]
    exact dispatchOn_undo_line ⟨hsettled.steady, hn⟩ s d
  · rintro ⟨⟨q, hq, hcmd⟩, report, rfl⟩
    exact dispatchOn_brings (EditM.dispatch_records hs hq hcmd) hrun report rfl

/-- One line is typed; a global command prints it. -/
theorem exists_printed : ∃ e e' disk',
    (Engine.new ⟨1, 10, 100⟩).performAll [.line FileTree.storage .empty ['a'],
      .line FileTree.storage .empty ['x'], .line FileTree.storage .empty ['.']] = .ok e ∧
    e.dispatchOn FileTree.storage ['g', '/', 'x', '/', 'p'] .empty =
      .ok (.ok (.ofOutput ["x"]), e', disk') ∧
    (e.asks ['g', '/', 'x', '/', 'p']).map Request.command = some (some (.global false)) ∧
    e'.window.id = e.window.id ∧
    e.session.undo.record.map (fun r => r.lines.handles) = some [] ∧
    e'.session.undo.record.map (fun r => r.lines.handles) = some [0] := by
  obtain ⟨e, hstart, hs⟩ := (steady_new ⟨1, 10, 100⟩).performAll [.line FileTree.storage .empty ['a'],
    .line FileTree.storage .empty ['x'], .line FileTree.storage .empty ['.']]
  obtain ⟨⟨answer, e', disk'⟩, hline, -⟩ :=
    dispatchOn_settles hs FileTree.storage ['g', '/', 'x', '/', 'p'] .empty
  have hvalues : ((Engine.new ⟨1, 10, 100⟩).performAll [.line FileTree.storage .empty ['a'],
      .line FileTree.storage .empty ['x'], .line FileTree.storage .empty ['.']] >>= fun e =>
        (e.dispatchOn FileTree.storage ['g', '/', 'x', '/', 'p'] .empty).map fun r =>
          (r.1.toOption, r.2.1.window.id == e.window.id,
            [e, r.2.1].map fun e => e.session.undo.record.map fun r => r.lines.handles)).toOption =
      some (some (.ofOutput ["x"]), true, [some [], some [0]]) := by
    have hwhole : EditM.withoutNewline ['g', '/', 'x', '/', 'p'] = ['g', '/', 'x', '/', 'p'] := rfl
    unfold Engine.dispatchOn EditM.dispatch
    simp only [hwhole, EditM.execute_global, EditM.runGlobal, GlobalRequest.parse_slash]
    decide +kernel
  have hasks : ((Engine.new ⟨1, 10, 100⟩).performAll [.line FileTree.storage .empty ['a'],
      .line FileTree.storage .empty ['x'], .line FileTree.storage .empty ['.']]).map (fun e =>
        (e.asks ['g', '/', 'x', '/', 'p']).map Request.command) = .ok (some (some (.global false))) := by
    decide +kernel
  rw [hstart] at hvalues hasks
  change ((e.dispatchOn FileTree.storage ['g', '/', 'x', '/', 'p'] .empty).map _).toOption = _ at hvalues
  rw [hline] at hvalues
  obtain ⟨hanswer, hrest⟩ := Prod.mk.inj (Option.some.inj hvalues)
  obtain ⟨hid, hrest⟩ := Prod.mk.inj hrest
  obtain ⟨hbefore, hrest⟩ := List.cons.inj hrest
  obtain ⟨hafter, -⟩ := List.cons.inj hrest
  cases answer with
  | error err => cases hanswer
  | ok report =>
    obtain rfl := Option.some.inj hanswer
    exact ⟨e, e', disk', hstart, hline, Except.ok.inj hasks, beq_iff_eq.mp hid, hbefore, hafter⟩

/-- A global command that only prints makes a record, and what `u` would have taken back is lost. -/
theorem global_print_records : ∃ e e' disk' report,
    (Engine.new ⟨1, 10, 100⟩).performAll [.line FileTree.storage .empty ['a'],
      .line FileTree.storage .empty ['x'], .line FileTree.storage .empty ['.']] = .ok e ∧
    e.dispatchOn FileTree.storage ['g', '/', 'x', '/', 'p'] .empty = .ok (.ok report, e', disk') ∧
    report.changed = false ∧ e'.window.id = e.window.id ∧
    (∀ q, e.asks ['g', '/', 'x', '/', 'p'] = some q → q.command ≠ some .undo) ∧
    e'.session.undo.record ≠ e.session.undo.record := by
  obtain ⟨e, e', disk', hstart, hline, hasks, hid, hbefore, hafter⟩ := exists_printed
  refine ⟨e, e', disk', _, hstart, hline, rfl, hid, fun q hq hundo => ?_, fun heq => ?_⟩
  · rw [hq, Option.map_some, hundo] at hasks
    cases hasks
  · rw [heq, hbefore] at hafter
    cases hafter

/-- The same line is printed by a command of its own, and `u` takes back what was typed. -/
theorem record_kept_print : ∃ e e₁ e₂ d₁ d₂ r report report₂,
    (Engine.new ⟨1, 10, 100⟩).performAll [.line FileTree.storage .empty ['a'],
      .line FileTree.storage .empty ['x'], .line FileTree.storage .empty ['.']] = .ok e ∧
    e.dispatchOn FileTree.storage ['p'] .empty = .ok (.ok report, e₁, d₁) ∧
    e₁.session.undo = e.session.undo ∧ r.lines.handles = [] ∧
    e₁.dispatchOn FileTree.storage ['u'] .empty =
      .ok (.ok (.ofSwitch []), e₁.disarmed.undone r, .empty) ∧
    e.dispatchOn FileTree.storage ['g', '/', 'x', '/', 'p'] .empty = .ok (.ok report₂, e₂, d₂) ∧
    e.Recorded e₂ := by
  obtain ⟨e, e₂, d₂, hstart, hglobal, hasks₂, hid₂, hbefore, -⟩ := exists_printed
  have hr : e.Reachable := (Reachable.new _).performAll hstart
  obtain ⟨⟨answer, e₁, d₁⟩, hline, -⟩ := dispatchOn_settles hr.steady FileTree.storage ['p'] .empty
  have hvalues : ((Engine.new ⟨1, 10, 100⟩).performAll [.line FileTree.storage .empty ['a'],
      .line FileTree.storage .empty ['x'], .line FileTree.storage .empty ['.']] >>= fun e =>
        (e.dispatchOn FileTree.storage ['p'] .empty).map fun r => (r.1.toOption,
          r.2.1.window.id == e.window.id, r.2.1.entry.isNone)).toOption =
      some (some (.ofOutput ["x"]), true, true) := by
    decide +kernel
  have hstate : ((Engine.new ⟨1, 10, 100⟩).performAll [.line FileTree.storage .empty ['a'],
      .line FileTree.storage .empty ['x'], .line FileTree.storage .empty ['.']]).map (fun e =>
        ((e.asks ['p']).map Request.command, e.restorable.map fun r => r.lines.handles)) =
      .ok (some (some (.line (.print .plain))), some []) := by
    decide +kernel
  rw [hstart] at hvalues hstate
  change ((e.dispatchOn FileTree.storage ['p'] .empty).map _).toOption = _ at hvalues
  rw [hline] at hvalues
  obtain ⟨hanswer, hrest⟩ := Prod.mk.inj (Option.some.inj hvalues)
  obtain ⟨hid, hentry⟩ := Prod.mk.inj hrest
  obtain ⟨hasks, hrestorable⟩ := Prod.mk.inj (Except.ok.inj hstate)
  obtain ⟨r, hr', hlines⟩ := Option.map_eq_some_iff.mp hrestorable
  obtain ⟨q₂, hq₂, hcmd₂⟩ := Option.map_eq_some_iff.mp hasks₂
  have hcmd {q : Request} (hq : e.asks ['p'] = some q) : q.command = some (.line (.print .plain)) := by
    rw [hq] at hasks
    exact Option.some.inj hasks
  have hundo₂ (q : Request) (hq : e.asks ['g', '/', 'x', '/', 'p'] = some q) : q.command ≠ some .undo := by
    cases hq₂.symm.trans hq
    rw [hcmd₂]
    exact fun hc => by cases hc
  cases answer with
  | error err => cases hanswer
  | ok report =>
    obtain rfl := Option.some.inj hanswer
    obtain ⟨hsame, hu⟩ := (Reachable.record_kept hr hline rfl (beq_iff_eq.mp hid) (fun q hq hc => by
      rw [hcmd hq] at hc
      cases hc)).1 fun ⟨⟨q, hq, hg⟩, _⟩ => by
        rw [hcmd hq] at hg
        cases hg
    have hrecorded := (Reachable.record_kept hr hglobal rfl hid₂ hundo₂).2
      ⟨⟨q₂, hq₂, by rw [hcmd₂]; rfl⟩, _, rfl⟩
    have hafter := hu (Option.isNone_iff_eq_none.mp hentry) FileTree.storage .empty
    rw [hr'] at hafter
    exact ⟨e, e₁, e₂, d₁, d₂, r, _, _, hstart, hline, hsame.undo_eq, hlines, hafter, hglobal, hrecorded⟩

end

end Engine

end LineEditor
