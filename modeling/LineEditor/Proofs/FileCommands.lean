import LineEditor.Proofs.Exchange
import LineEditor.Proofs.Recorded
import LineEditor.Proofs.Sessions

/-!
# Commands on files and sessions

A command that stops half way for the file system has only taken notes until then, and settles with
every answer. What is put into the window is refused before the window is touched: counting its
lines and cutting it into lines come to the same number.
-/

namespace LineEditor

/-- How a command may come out that is done or waits for the file system. -/
def Progress.Settles (e : Engine) : Progress → Engine → Prop
  | .done report, e' => e.Settles (.ok report) e'
  | .load _ resume, e' => ∀ answer, Ends (resume answer) e' e.Settles
  | .read _ resume, e' => ∀ answer, Ends (resume answer) e' e.Settles
  | .write _ _ _ resume, e' => ∀ answer, Ends (resume answer) e' e.Settles

namespace Engine

/-- How the first half of a command may come out. -/
def Proceeds (e : Engine) : Post Engine Progress
  | .ok progress, e' => progress.Settles e e'
  | .error err, e' => e.Settles (.error err) e'

theorem unaltered_armed (e : Engine) (armed : Bool) : e.Unaltered { e with quitArmed := armed } :=
  ⟨rfl, .inl rfl, id⟩

/-- Nothing but notes are taken. -/
def Notes (e : Engine) : Post Engine α
  | .ok _, e' => e.Unaltered e' ∧ e'.Idle
  | .error err, e' => e.Unaltered e' ∧ e'.Idle ∧ err.isPartial = false

section
variable {e e' : Engine}

theorem Unaltered.proceeds {e'' : Engine} (h : e.Unaltered e') {answer : Except EditError Progress}
    (h' : e'.Proceeds answer e'') : e.Proceeds answer e'' := by
  cases answer with
  | error err =>
    have hs : e'.Settles (.error err) e'' := h'
    exact h.settles hs
  | ok progress =>
    cases progress with
    | done report =>
      have hs : e'.Settles (.ok report) e'' := h'
      exact h.settles hs
    | load path resume => exact fun a => (h' a).mono fun _ _ hp => h.settles hp
    | read path resume => exact fun a => (h' a).mono fun _ _ hp => h.settles hp
    | write path bytes append resume => exact fun a => (h' a).mono fun _ _ hp => h.settles hp

end

end Engine

namespace EditM

section
variable {e : Engine}

theorem ends_done {x : EditM Report} (h : Ends x e e.Settles) : Ends (.done <$> x) e e.Proceeds := by
  rw [ends_map]
  refine h.mono fun answer e' hp => ?_
  cases answer with
  | ok report => exact hp
  | error err => exact hp

theorem guardUnsaved_ends (h : e.Idle) (changed : Bool) :
    Ends (guardUnsaved changed) e e.Notes := by
  have harmed (b : Bool) := (e.unaltered_armed b).idle h
  unfold guardUnsaved
  rw [ends_get_bind]
  split
  · rw [ends_modify_bind, ends_throw]
    exact ⟨e.unaltered_armed true, harmed true, rfl⟩
  · rw [ends_modify]
    exact ⟨e.unaltered_armed false, harmed false⟩

theorem targetFile_ends (tail : List Char) :
    Ends (targetFile tail) e fun answer e' => e' = e ∧ Answers answer fun _ => True := by
  unfold targetFile
  dsimp only
  split
  · rw [ends_get_bind]
    split
    · exact ends_pure.mpr ⟨rfl, trivial⟩
    · exact ends_throw.mpr ⟨rfl, rfl⟩
  · exact ends_pure.mpr ⟨rfl, trivial⟩

theorem rememberFile_worked (h : e.Sound) (name : List Char) :
    e.Worked (e.setWindow { e.window with fileName := e.window.fileName <|> some name }) :=
  h.worked_note rfl rfl rfl rfl

/-! ## Sessions -/

theorem editSession_settles (h : e.Idle) (digits : List Char) :
    Ends (editSession digits) e e.Settles := by
  unfold editSession
  refine settles_reads h (sessionNumber_reads digits) fun n _ => ?_
  refine settles_moves h (switchSession_ends h.toSteady n) fun created e₁ h₁ => ?_
  rw [ends_modify_bind]
  have hidle := (e₁.unaltered_armed false).idle h₁
  dsimp only
  split
  · exact ends_pure.mpr (hidle.toSteady.settles rfl)
  · rw [ends_get_bind]
    split
    · exact ends_pure.mpr (hidle.toSteady.settles rfl)
    · exact ends_pure.mpr (hidle.toSteady.settles rfl)

theorem runQuit_settles (h : e.Idle) (tail : List Char) : Ends (runQuit tail) e e.Settles := by
  unfold runQuit
  refine settles_reads h (noTail_reads _ tail) fun _ _ => ?_
  rw [ends_get_bind]
  refine (guardUnsaved_ends h _).then ?_ fun err e₁ hp => hp.1.refused hp.2.1.toSteady hp.2.2
  rintro _ e₁ ⟨hun, h₁⟩
  refine Ends.mono ?_ fun _ _ hp => hun.settles hp
  refine settles_moves h₁ (closeSession_ends h₁.toSteady) fun slot e₂ h₂ => ?_
  cases slot with
  | some n => exact ends_pure.mpr (h₂.toSteady.settles rfl)
  | none => exact ends_pure.mpr (h₂.toSteady.settles rfl)

theorem runBack_settles (h : e.Idle) (tail : List Char) : Ends (runBack tail) e e.Settles := by
  unfold runBack
  refine settles_reads h (noTail_reads _ tail) fun _ _ => ?_
  exact settles_moves h (popWindow_ends h.toSteady) fun _ _ h₁ =>
    ends_pure.mpr (h₁.toSteady.settles rfl)

theorem runMoveSession_settles (h : e.Idle) (tail : List Char) :
    Ends (runMoveSession tail) e e.Settles := by
  unfold runMoveSession
  refine settles_reads h (slotArgument_reads tail) fun slot _ => ?_
  exact settles_moves h (moveSession_ends h.toSteady slot) fun _ _ h₁ =>
    ends_pure.mpr (h₁.toSteady.settles rfl)

theorem runUndo_settles (h : e.Idle) (tail : List Char) : Ends (runUndo tail) e e.Settles := by
  unfold runUndo
  refine settles_reads h (noTail_reads _ tail) fun _ _ => ?_
  exact settles_moves h (undo_ends h) fun _ _ h₁ => ends_pure.mpr (h₁.toSteady.settles rfl)

theorem runFileName_settles (h : e.Idle) (tail : List Char) :
    Ends (runFileName tail) e e.Settles := by
  unfold runFileName
  dsimp only
  split
  · rw [ends_modifyWindow_bind, ends_get_bind]
    have hw : e.Worked (e.setWindow { e.window with fileName := some (Unicode.trim tail) }) :=
      h.toSound.worked_note rfl rfl rfl rfl
    exact ends_pure.mpr ((hw.steady h.toSteady).settles rfl)
  · rw [ends_get_bind]
    split
    · exact ends_pure.mpr (h.toSteady.settles rfl)
    · exact ends_throw.mpr ((Engine.Unaltered.refl e).refused h.toSteady rfl)

/-! ## Loading -/

/-- The name comes last, when the window is filled. -/
theorem nameWindow_settles {e₁ e₂ : Engine} (h : e₁.Steady) (hw : e₁.Worked e₂) (path : List Char)
    (size : Nat) : Ends (do
      modifyWindow fun w => { w with fileName := some path }
      return Report.ofSwitch [toString size]) e₂ e.Settles := by
  have hnamed : e₂.Worked (e₂.setWindow { e₂.window with fileName := some path }) :=
    hw.sound.worked_note rfl rfl rfl rfl
  rw [ends_modifyWindow_bind, ends_pure]
  exact ((hw.trans hnamed).steady h).settles rfl

/-- A window that is opened for what was loaded has room for it. -/
theorem openWindow_settles (h : e.Idle) (onTop : Bool) {f : EditM Report}
    (hf : ∀ e', e.Opened e' → Ends f e' e.Settles) :
    Ends (if onTop then (do let _ ← pushWindow .none; f) else (do let _ ← replaceWindow .none; f)) e
      e.Settles := by
  split
  · exact (pushWindow_ends h.toSteady .none).sure_then fun _ e' h' => hf e' h'
  · exact (replaceWindow_ends h.toSteady .none).sure_then fun _ e' h' => hf e' h'

theorem showLoaded_settles (h : e.Idle) (path : List Char) (onTop : Bool) (loaded : Loaded) :
    Ends (showLoaded path onTop loaded) e e.Settles := by
  unfold showLoaded
  rw [ends_get_bind]
  cases loaded with
  | file bytes =>
    dsimp only
    split
    · exact ends_throw.mpr ((Engine.Unaltered.refl e).refused h.toSteady rfl)
    · rename_i hsize
      refine openWindow_settles h onTop fun e₁ h₁ => ?_
      have hfit : e₁.window.dol + (Blob.split bytes).lines.length ≤ e₁.limits.lines := by
        rw [← Blob.countLines_eq, h₁.dol_eq, h₁.limits_eq]
        omega
      have hput := Enters.sure ⟨Nat.zero_le _, hfit⟩ (insertBulk_ends h₁.toSound 0 bytes)
      exact hput.sure_then fun _ e₂ hw => nameWindow_settles h₁.toSteady hw path _
  | directory entries =>
    dsimp only
    split
    · exact ends_throw.mpr ((Engine.Unaltered.refl e).refused h.toSteady rfl)
    · rename_i hsize
      refine openWindow_settles h onTop fun e₁ h₁ => ?_
      have hfit : e₁.window.dol + entries.length ≤ e₁.limits.lines := by
        rw [h₁.dol_eq, h₁.limits_eq]
        omega
      have hput := Enters.sure ⟨Nat.zero_le _, hfit⟩ (insertDirectory_ends h₁.toSound 0 entries)
      exact hput.sure_then fun _ e₂ hw => nameWindow_settles h₁.toSteady hw path _

theorem runEdit_proceeds (h : e.Idle) (tail : List Char) : Ends (runEdit tail) e e.Proceeds := by
  have hload {e₁ : Engine} (hun : e.Unaltered e₁) (h₁ : e₁.Idle) (path : List Char) (onTop : Bool) :
      e.Proceeds (.ok (.load path fun answer => do
        showLoaded path onTop (← liftExcept (ofStorage path answer)))) e₁ := by
    intro answer
    refine Ends.mono ?_ fun _ _ hp => hun.settles hp
    exact settles_reads h₁ (ofStorage_reads path answer) fun loaded _ =>
      showLoaded_settles h₁ path onTop loaded
  unfold runEdit
  dsimp only
  split
  · rw [ends_get_bind, ends_pure]
    exact h.toSteady.settles rfl
  · split
    · exact ends_done (editSession_settles h _)
    · rw [ends_get_bind]
      split
      · refine (guardUnsaved_ends h _).then ?_ fun err e₁ hp => hp.1.refused hp.2.1.toSteady hp.2.2
        exact fun _ e₁ hp => ends_pure.mpr (hload hp.1 hp.2 _ _)
      · exact ends_pure.mpr (hload (.refl e) h _ _)

/-! ## Reading and writing -/

/-- The bytes of a file are counted before anything is noted of them. -/
theorem insertFile_settles (h : e.Ready) (path : List Char) {after : Nat}
    (hafter : after ≤ e.window.dol) (bytes : Bytes) :
    Ends (insertFile path after bytes) e e.Settles := by
  unfold insertFile
  refine settles_checkCapacity h.toIdle fun hsize => ?_
  unfold rememberFile
  rw [ends_modifyWindow_bind]
  have hnamed := rememberFile_worked h.toSound path
  split
  · exact ends_pure.mpr ((hnamed.steady h.toSteady).settles rfl)
  · have hready : Engine.Ready (e.setWindow _) := ⟨⟨hnamed.steady h.toSteady, h.untyped⟩, h.calm⟩
    refine snapshot_then hready fun e₁ hrec hdol hunmarked hlim => ?_
    have hrec₁ : e.Recorded e₁ := hrec.of_recordOf_eq rfl rfl
    have hfit : e₁.window.dol + (Blob.split bytes).lines.length ≤ e₁.limits.lines := by
      rw [← Blob.countLines_eq, hdol, hlim]
      exact hsize
    have hput := Enters.sure ⟨hdol ▸ hafter, hfit⟩ (insertBulk_ends hrec₁.sound after bytes)
    refine hput.sure_then fun _ e₂ hw => ?_
    rw [ends_modifyWindow_bind, ends_pure]
    have hdone := hw.trans (noteEdit_worked hw.sound)
    exact (hrec₁.worked hdone).settles (hdone.unmarked hunmarked) _

theorem runRead_proceeds (h : e.Ready) {range : LineRange} (hr : range.Within e.window.dol)
    (tail : List Char) : Ends (runRead range tail) e e.Proceeds := by
  unfold runRead
  refine (targetFile_ends tail).then ?_ ?_
  · rintro path _ ⟨rfl, -⟩
    refine ends_pure.mpr fun answer => ?_
    exact settles_reads h.toIdle (ofStorage_reads path answer) fun bytes _ =>
      insertFile_settles h path hr.stop_le bytes
  · rintro err _ ⟨rfl, herr⟩
    exact (Engine.Unaltered.refl _).refused h.toSteady herr

theorem noteWritten_settles (h : e.Steady) (path : List Char) (range : LineRange) (append : Bool)
    (count : Nat) : Ends (noteWritten path range append count) e e.Settles := by
  have hnamed := rememberFile_worked h.toSound path
  unfold noteWritten rememberFile
  rw [ends_get_bind]
  dsimp only
  rw [ends_modifyWindow_bind]
  split
  · rw [ends_modifyWindow_bind, ends_pure]
    have hsaved := hnamed.trans (worked_flags hnamed.sound { e.window.flags with changed := false })
    exact (hsaved.steady h).settles rfl
  · exact ends_pure.mpr ((hnamed.steady h).settles rfl)

theorem runWrite_proceeds (h : e.Idle) (range : LineRange) (tail : List Char) :
    Ends (runWrite range tail) e e.Proceeds := by
  have hwrite (append : Bool) (rest : List Char) : Ends (do
      let path ← targetFile rest
      let bytes ← extractRange range.start range.stop
      return Progress.write path bytes append fun answer => do
        noteWritten path range append (← liftExcept (ofStorage path answer))) e e.Proceeds := by
    refine (targetFile_ends rest).then ?_ ?_
    · rintro path _ ⟨rfl, -⟩
      refine (extractRange_ends h.toSound _ _).then ?_ ?_
      · rintro bytes _ ⟨rfl, -⟩
        refine ends_pure.mpr fun answer => ?_
        exact settles_reads h (ofStorage_reads path answer) fun count _ =>
          noteWritten_settles h.toSteady path range append count
      · rintro err _ ⟨rfl, herr⟩
        exact (Engine.Unaltered.refl _).refused h.toSteady herr
    · rintro err _ ⟨rfl, herr⟩
      exact (Engine.Unaltered.refl _).refused h.toSteady herr
  unfold runWrite
  dsimp only
  exact hwrite _ _

end

end EditM

end LineEditor
