import LineEditor.Proofs.FileCommands
import LineEditor.Proofs.GlobalCommands
import LineEditor.Proofs.TypedText

/-!
# Lines of input

Every line of input settles: by the case of the command, and for a command that stops half way by
the answer of the file system. Undoing a recorded change is one such line of which the state
afterwards is known in full.
-/

namespace LineEditor

theorem Command.mem_all (cmd : Command) : cmd ∈ Command.all := by
  cases cmd with
  | line c =>
    cases c with
    | print style => cases style <;> decide
    | join spaced => cases spaced <;> decide
    | _ => decide
  | global inverted => cases inverted <;> decide
  | _ => decide

theorem identify_letter (cmd : Command) : identify (some cmd.letter) = .ok (some cmd) := by
  have hall : ∀ cmd ∈ Command.all, identify (some cmd.letter) = .ok (some cmd) := by decide
  exact hall cmd cmd.mem_all

/-- Neither white space nor an address begins with the letter of a command. -/
theorem Command.letter_begins_none (cmd : Command) : Unicode.isSpace cmd.letter = false ∧
    cmd.letter.isDigit = false ∧ Address.isSign cmd.letter = false ∧
      cmd.letter ∉ ['%', ',', ';', '.', '$', '\'', '/', '?'] := by
  have hall : (Command.all.all fun cmd => !Unicode.isSpace cmd.letter && !cmd.letter.isDigit &&
      !Address.isSign cmd.letter && ! ['%', ',', ';', '.', '$', '\'', '/', '?'].contains cmd.letter) =
      true := by decide +kernel
  have hletter := List.all_eq_true.mp hall cmd cmd.mem_all
  simp only [Bool.and_eq_true, Bool.not_eq_true', List.contains_eq_mem, decide_eq_false_iff_not]
    at hletter
  obtain ⟨⟨⟨hspace, hdigit⟩, hsign⟩, hother⟩ := hletter
  exact ⟨hspace, hdigit, hsign, hother⟩

theorem Unicode.trimStart_letter (cmd : Command) (tail : List Char) :
    trimStart (cmd.letter :: tail) = cmd.letter :: tail := by
  unfold trimStart
  rw [List.dropWhile_cons_of_neg (by simp [cmd.letter_begins_none.1])]

theorem Address.parse_letter (cmd : Command) (tail : List Char) :
    parse (cmd.letter :: tail) = .ok none := by
  obtain ⟨-, hdigit, hsign, hother⟩ := cmd.letter_begins_none
  generalize cmd.letter = letter at *
  simp only [List.mem_cons, List.not_mem_nil, or_false, not_or] at hother
  simp [parse, base?, offsets, hdigit, hsign, hother, pure, Except.pure, bind, Except.bind]

/-- The letter of a command begins no range. -/
theorem CommandLine.parse_letter (cmd : Command) (tail : List Char) :
    parse (cmd.letter :: tail) = .ok ⟨.default, some cmd.letter, tail⟩ := by
  have hrange : RangeExpr.parse (cmd.letter :: tail) = .ok (.default, cmd.letter :: tail) := by
    have haddress := Address.parse_letter cmd tail
    obtain ⟨-, -, -, hother⟩ := cmd.letter_begins_none
    generalize cmd.letter = letter at *
    simp only [List.mem_cons, List.not_mem_nil, or_false, not_or] at hother
    simp [RangeExpr.parse, haddress, hother, pure, Except.pure, bind, Except.bind]
  unfold parse
  rw [Unicode.trimStart_letter, hrange]
  dsimp only [bind, Except.bind]
  rw [Unicode.trimStart_letter]
  rfl

/-- A comma in front of it stands for the whole window. -/
theorem CommandLine.parse_comma_letter (cmd : Command) (tail : List Char) :
    parse (',' :: cmd.letter :: tail) = .ok ⟨.whole, some cmd.letter, tail⟩ := by
  have hcomma : Unicode.isSpace ',' = false := by decide +kernel
  have hstart : Unicode.trimStart (',' :: cmd.letter :: tail) = ',' :: cmd.letter :: tail := by
    unfold Unicode.trimStart
    rw [List.dropWhile_cons_of_neg (by simp [hcomma])]
  have hrange : RangeExpr.parse (',' :: cmd.letter :: tail) = .ok (.whole, cmd.letter :: tail) := by
    show RangeExpr.afterSeparator ⟨.line 1, 0⟩ .whole (cmd.letter :: tail) = _
    unfold RangeExpr.afterSeparator
    rw [Address.parse_letter]
    rfl
  unfold parse
  rw [hstart, hrange]
  dsimp only [bind, Except.bind]
  rw [Unicode.trimStart_letter]
  rfl

namespace EditM

section
variable {e : Engine} {range : LineRange}

/-- What is known of the engine when a command with its range is run. -/
theorem runCommand_proceeds (h : e.Idle) {cmd : Option Command}
    (hq : keepsWarning cmd = false → e.quitArmed = false) (hr : range.Within e.window.dol)
    (hz : 0 < range.start ∨ cmd.any Command.allowsZero) (tail : List Char) :
    Ends (runCommand cmd range tail) e e.Proceeds := by
  have hready (hk : keepsWarning cmd = false) : e.Ready := ⟨h, hq hk⟩
  unfold runCommand
  cases cmd with
  | none => exact ends_done (runLine_settles none (hready rfl) hr hz tail)
  | some cmd =>
    cases cmd with
    | line c => exact ends_done (runLine_settles (some c) (hready rfl) hr hz tail)
    | append => exact ends_done (runAppend_settles (hready rfl) hr tail)
    | insert => exact ends_done (runInsert_settles (hready rfl) hr tail)
    | change =>
      have h₁ : 0 < range.start := by simpa [Command.allowsZero] using hz
      exact ends_done (runChange_settles (hready rfl) h₁ hr tail)
    | global inverted => exact ends_done (runGlobal_settles (hready rfl) inverted range tail)
    | undo => exact ends_done (runUndo_settles h tail)
    | edit => exact runEdit_proceeds h tail
    | quit => exact ends_done (runQuit_settles h tail)
    | back => exact ends_done (runBack_settles h tail)
    | moveSession => exact ends_done (runMoveSession_settles h tail)
    | fileName => exact ends_done (runFileName_settles h tail)
    | read => exact runRead_proceeds (hready rfl) hr tail
    | write => exact runWrite_proceeds h range tail

theorem execute_proceeds (h : e.Idle) (text : List Char) : Ends (execute text) e e.Proceeds := by
  have hrefuse {e' : Engine} (hun : e.Unaltered e') (h' : e'.Idle) {err : EditError}
      (herr : err.isPartial = false) : e.Proceeds (.error err) e' :=
    hun.refused h'.toSteady herr
  unfold execute
  rw [CommandLine.lift_read]
  refine (CommandLine.parse_reads text).then (fun line _ => ?_) fun _ herr => hrefuse (.refl e) h herr
  refine (identify_reads line.letter).then (fun cmd _ => ?_) fun _ herr => hrefuse (.refl e) h herr
  -- the rest is the same whether a warning was withdrawn or not
  have hrun {e₁ : Engine} (hun : e.Unaltered e₁) (h₁ : e₁.Idle)
      (hq : keepsWarning cmd = false → e₁.quitArmed = false) : Ends (do
        liftExcept (checkMode (← get).window.mode cmd)
        let range ← query fun v => v.locate false cmd line.range
        runCommand cmd range line.tail) e₁ e.Proceeds := by
    rw [ends_get_bind]
    refine (checkMode_reads _ cmd).then (fun _ _ => ?_) fun _ herr => hrefuse hun h₁ herr
    have hlocate := View.locate_yields h₁.toSound.readable false cmd line.range
    refine (query_ends hlocate).then ?_ fun err e₂ hp =>
      hrefuse (hun.trans hp.1.unaltered) (hp.1.unaltered.idle h₁) hp.2
    rintro range e₂ ⟨hrec, hr, hz⟩
    have hun₂ := hrec.unaltered
    have h₂ := hun₂.idle h₁
    obtain ⟨r, rfl, -⟩ := hrec
    exact (runCommand_proceeds h₂ hq hr hz line.tail).mono fun _ _ hp => (hun.trans hun₂).proceeds hp
  dsimp only
  split
  · rw [ends_modify_bind]
    exact hrun (e.unaltered_armed false) ((e.unaltered_armed false).idle h) fun _ => rfl
  · rename_i hk
    refine hrun (.refl e) h fun hk' => ?_
    rw [hk'] at hk
    exact absurd rfl hk

theorem dispatch_proceeds (h : e.Steady) (line : List Char) : Ends (dispatch line) e e.Proceeds := by
  unfold dispatch
  rw [ends_get_bind]
  split
  · rename_i t ht
    exact ends_done (typeLine_settles h ht _)
  · rename_i hn
    exact execute_proceeds ⟨h, hn⟩ _

/-! ## Commands without a range -/

/-- The lines of a command without a range are where its default is. -/
theorem locate_default {inGlobal : Bool} {cmd : Option Command}
    (hr : effectiveRange e.window.dot e.window.dol inGlobal cmd none = .ok range)
    (hz : checkZero cmd range.start = .ok ()) :
    Ends (query fun v => v.locate inGlobal cmd .default) e
      (.sure fun range' e' => range' = range ∧ e' = e) := by
  have hrange : effectiveRange e.view.window.dot e.view.window.dol inGlobal cmd none = .ok range := hr
  rw [ends_query]
  unfold View.locate View.range
  rw [pure_bind, ends_bind, ends_liftExcept, hrange, Post.after_ok, ends_bind, ends_liftExcept, hz,
    Post.after_ok, ends_pure]
  exact ⟨rfl, rfl⟩

/-- Such a command is run when its letter has been read. -/
theorem execute_known {text tail : List Char} {cmd : Command}
    (hparse : CommandLine.parse text = .ok ⟨.default, some cmd.letter, tail⟩)
    (hmode : e.window.mode.allows cmd = true) (hz : cmd.allowsZero = true)
    (hr : effectiveRange e.window.dot e.window.dol false (some cmd) none = .ok range)
    {post : Post Engine Progress}
    (hrun : Ends (runCommand (some cmd) range tail)
      (if keepsWarning (some cmd) then e else { e with quitArmed := false }) post) :
    Ends (execute text) e post := by
  have hlocated {e' : Engine} (hw : e'.window = e.window)
      (hrun : Ends (runCommand (some cmd) range tail) e' post) : Ends (do
        liftExcept (checkMode (← get).window.mode (some cmd))
        let range ← query fun v => v.locate false (some cmd) .default
        runCommand (some cmd) range tail) e' post := by
    have hallowed : checkMode e'.window.mode (some cmd) = .ok () := by
      rw [hw]
      exact if_pos hmode
    have hzero : checkZero (some cmd) range.start = .ok () := by
      simp [checkZero, hz, pure, Except.pure]
    rw [← hw] at hr
    rw [ends_get_bind, ends_bind, ends_liftExcept, hallowed, Post.after_ok]
    refine (locate_default hr hzero).sure_then ?_
    rintro _ _ ⟨rfl, rfl⟩
    exact hrun
  unfold execute
  rw [CommandLine.lift_read, ends_bind, ends_liftExcept, hparse, Post.after_ok]
  dsimp only
  rw [ends_bind, ends_liftExcept, identify_letter, Post.after_ok]
  cases hk : keepsWarning (some cmd) with
  | true =>
    rw [hk, if_pos rfl] at hrun
    rw [if_neg (by simp)]
    exact hlocated rfl hrun
  | false =>
    rw [hk, if_neg (by simp)] at hrun
    rw [if_pos (by simp), ends_modify_bind]
    exact hlocated rfl hrun

theorem dispatch_untyped (hn : e.entry = none) {line : List Char} {post : Post Engine Progress} :
    Ends (dispatch line) e post ↔ Ends (execute (withoutNewline line)) e post := by
  unfold dispatch
  rw [ends_get_bind, hn]

end

end EditM

namespace Engine

/-- One line of input is one transaction. -/
theorem dispatchOn_settles {e : Engine} (h : e.Steady) (s : Storage σ) (line : List Char) (disk : σ) :
    Succeeds (e.dispatchOn s line disk) fun r => e.Settles r.1 r.2.1 := by
  obtain ⟨⟨answer, e₁⟩, hrun, hp⟩ := EditM.dispatch_proceeds h line
  have hfirst : e.run (EditM.dispatch line) = .ok (answer, e₁) := hrun
  unfold dispatchOn
  rw [hfirst]
  cases answer with
  | error err => exact Succeeds.ok_iff.mpr hp
  | ok progress =>
    have hrest {x : EditM Report} (hx : Ends x e₁ e.Settles) (disk : σ) :
        Succeeds (e₁.run x >>= fun r => return (r.1, r.2, disk)) fun r => e.Settles r.1 r.2.1 := by
      rw [Succeeds.bind_iff]
      exact Succeeds.mono hx fun r hr => Succeeds.pure_iff.mpr hr
    cases progress with
    | done report => exact hrest (ends_pure.mpr hp) disk
    | load path resume => exact hrest (hp _) disk
    | read path resume => exact hrest (hp _) disk
    | write path bytes append resume => exact hrest (hp _) _

/-- A line that asks nothing of the file system ends as its command does. -/
theorem dispatchOn_done {e e' : Engine} {line : List Char} {outcome : Except EditError Report}
    (h : Ends (EditM.dispatch line) e fun answer s => answer = outcome.map .done ∧ s = e')
    (s : Storage σ) (disk : σ) : e.dispatchOn s line disk = .ok (outcome, e', disk) := by
  obtain ⟨⟨answer, e₁⟩, hrun, rfl, rfl⟩ := h
  have hfirst : e.run (EditM.dispatch line) = .ok (outcome.map .done, e₁) := hrun
  unfold dispatchOn
  rw [hfirst]
  cases outcome <;> rfl

/-! ## Undoing -/

/-- The engine with its current window swapped with the record `r`. -/
def undone (e : Engine) (r : UndoRecord) : Engine :=
  { e with
    session := { e.session with
      current := { e.window with
        dot := r.dot
        labels := r.labels
        lines := r.lines
        flags.noFinalNewline := r.noFinalNewline }
      undo := { e.session.undo with record := some (UndoSlot.recordOf e.window e.window.lines) } } }

theorem undone_undone {e : Engine} {r : UndoRecord} (hr : e.session.undo.record = some r)
    (hid : r.window = e.window.id) :
    (e.undone r).undone (UndoSlot.recordOf e.window e.window.lines) = e := by
  have hrecord : UndoSlot.recordOf (e.undone r).window (e.undone r).window.lines = r := by
    show (⟨e.window.id, r.dot, r.labels, r.lines, r.noFinalNewline⟩ : UndoRecord) = r
    rw [← hid]
  have hundo : (⟨some r, e.session.undo.skipped⟩ : UndoSlot) = e.session.undo := by rw [← hr]
  unfold undone at hrecord ⊢
  rw [hrecord]
  show ({ e with session := { e.session with current := e.window, undo := ⟨some r, _⟩ } } : Engine) = e
  rw [hundo]
  rfl

section
variable {e : Engine} {r : UndoRecord}

theorem undo_known (hr : e.session.undo.record = some r) (hid : r.window = e.window.id) :
    Ends EditM.undo e (.sure fun _ e' => e' = e.undone r) := by
  have hundo : e.session.undo.undo? e.window =
      some ((e.undone r).session.undo, (e.undone r).window) := by
    simp only [UndoSlot.undo?, hr, hid, if_true]
    rfl
  unfold EditM.undo
  rw [ends_get_bind, hundo]
  exact ends_set.mpr rfl

/-- Undoing works on dot, wherever that is. -/
theorem dispatchOn_of_undo (h : e.Idle) {outcome : Except EditError Unit} {e' : Engine}
    (hundo : Ends EditM.undo { e with quitArmed := false } fun answer s => answer = outcome ∧ s = e')
    (s : Storage σ) (disk : σ) :
    e.dispatchOn s ['u'] disk = .ok (outcome.map fun _ => .ofSwitch [], e', disk) := by
  have hline : EditM.withoutNewline ['u'] = ['u'] := by decide
  have hmode : e.window.mode.allows .undo = true := by cases e.window.mode <;> rfl
  have hrange : effectiveRange e.window.dot e.window.dol false (some .undo) none =
      .ok ⟨e.window.dot, e.window.dot, 0⟩ := if_neg (Nat.not_lt.mpr h.consistent.dot_le)
  have htail : noTail Command.undo.letter [] = .ok () := by decide
  refine dispatchOn_done ?_ s disk
  rw [EditM.dispatch_untyped h.untyped, hline]
  refine EditM.execute_known (CommandLine.parse_letter .undo []) hmode rfl hrange ?_
  rw [if_neg (by decide)]
  unfold EditM.runCommand EditM.runUndo
  rw [ends_map, ends_bind, ends_liftExcept, htail, Post.after_ok]
  refine hundo.then ?_ ?_
  · rintro _ _ ⟨rfl, rfl⟩
    exact ends_pure.mpr ⟨rfl, rfl⟩
  · rintro err _ ⟨rfl, rfl⟩
    exact ⟨rfl, rfl⟩

/-- Undoing a recorded change swaps the window with its record and does nothing else. -/
theorem dispatchOn_undo (h : e.Ready) (hr : e.session.undo.record = some r)
    (hid : r.window = e.window.id) (s : Storage σ) (disk : σ) :
    e.dispatchOn s ['u'] disk = .ok (.ok (.ofSwitch []), e.undone r, disk) := by
  have hcalm : { e with quitArmed := false } = e := by rw [← h.calm]
  have hundo : Ends EditM.undo { e with quitArmed := false } fun answer e' =>
      answer = .ok () ∧ e' = e.undone r := by
    rw [hcalm]
    exact (undo_known hr hid).of_sure fun _ _ heq => ⟨rfl, heq⟩
  exact dispatchOn_of_undo h.toIdle hundo s disk

end

end Engine

end LineEditor
