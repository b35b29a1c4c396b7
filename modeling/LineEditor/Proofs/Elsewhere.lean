import LineEditor.Proofs.Deeds

/-!
# Commands beside the text

Some commands do not work on the text of the current window: they go to another window, bring back
what was recorded, or deal with files and sessions. They report no change of the text. Unless they
report that lines may stand elsewhere, the window is the one it was, with its lines, dot and labels.
-/

namespace LineEditor

namespace Engine

/-- The same window is current, over the same stored lines and record; at most its file name and the
note of unsaved edits are others. -/
structure Stays (e e' : Engine) : Prop where
  window_eq : e'.window =
    { e.window with fileName := e'.window.fileName, flags.changed := e'.window.flags.changed }
  undo_eq : e'.session.undo = e.session.undo
  pool_eq : e'.pool = e.pool

/-- No change of the text is reported, and none of the window or its numbering goes unreported. -/
def ReportsElsewhere (e : Engine) : Post Engine Report
  | .ok report, e' => report.changed = false ∧ (report.shapeChanged = false → e.Stays e')
  | .error _, _ => True

section
variable {e e' : Engine}

theorem Stays.refl (e : Engine) : e.Stays e := ⟨rfl, rfl, rfl⟩

theorem stays_disarmed (e : Engine) : e.Stays e.disarmed := ⟨rfl, rfl, rfl⟩

theorem stays_written (e : Engine) (path : List Char) (saves : Bool) :
    e.Stays (e.written path saves) := ⟨rfl, rfl, rfl⟩

/-- A command that does not work in place and leaves the same window current undoes, or leaves the
lines, dot and labels of the window alone. -/
theorem Effect.stays (h : e.Shelved fun _ => none) {cmd : Option Command} {range : LineRange}
    {tail : List Char} {x : Traffic} {report : Report}
    (heff : e.Effect cmd range tail x (.ok report) e') (hcmd : EditM.worksInPlace cmd = false)
    (hid : e'.window.id = e.window.id) : cmd = some .undo ∨ e.Stays e' := by
  have hother {s : Session} (hs : s ∈ e.others.sessions) : s.current.id ≠ e.window.id :=
    h.id_ne (.inr (List.mem_flatMap.mpr ⟨s, hs, List.mem_append_right _ (List.mem_singleton_self _)⟩))
  have hnew : e.nextWindow ≠ e.window.id :=
    Nat.ne_of_gt (h.id_lt (h.toHeld.mem_windows_session e.window_mem_session))
  -- whoever else becomes current has another number, so that only what stays in the window is left
  cases heff with
  | worked hwork =>
    rw [hwork] at hcmd
    cases hcmd
  | undone => exact .inl rfl
  | wrote => exact .inr (e.stays_written _ _)
  | told => exact .inr (.refl e)
  | quit => exact .inr e.stays_disarmed
  | moved => exact .inr ⟨rfl, rfl, rfl⟩
  | @closed _ _ _ _ n s p _ hs =>
    exact absurd hid (hother (SessionTable.mem_sessions.mpr ⟨n, hs⟩))
  | @switched _ _ _ n s hs =>
    rcases table_eq_or hs h.toHeld with ⟨hn, hs⟩ | rfl
    · rw [e.table_get?_of_ne hn] at hs
      exact absurd hid (hother (SessionTable.mem_sessions.mpr ⟨n, hs⟩))
    · exact .inr ⟨rfl, rfl, rfl⟩
  | started => exact absurd hid hnew
  | popped _ hb =>
    refine absurd hid (h.id_ne (.inl ?_))
    rw [hb]
    exact List.mem_cons_self
  | replaced _ _ _ _ hc => exact absurd (hc.id_eq.symm.trans hid) hnew
  | pushed _ hc => exact absurd (hc.id_eq.symm.trans hid) hnew

end

end Engine

namespace EditM

section
variable {e e' : Engine}

theorem elsewhere_after {x : EditM α} {f : α → EditM Report}
    (hf : ∀ a e₁, Leads (f a) e₁ e.ReportsElsewhere) : Leads (x >>= f) e' e.ReportsElsewhere :=
  leads_after (fun _ _ => trivial) hf

theorem elsewhere_switch (output : List String) :
    Leads (pure (Report.ofSwitch output)) e' e.ReportsElsewhere :=
  leads_pure.mpr ⟨rfl, fun hshape => by cases hshape⟩

theorem runUndo_elsewhere (tail : List Char) : Leads (runUndo tail) e e.ReportsElsewhere := by
  unfold runUndo
  exact elsewhere_after fun _ _ => elsewhere_after fun _ _ => elsewhere_switch _

theorem runBack_elsewhere (tail : List Char) : Leads (runBack tail) e e.ReportsElsewhere := by
  unfold runBack
  exact elsewhere_after fun _ _ => elsewhere_after fun _ _ => elsewhere_switch _

theorem runMoveSession_elsewhere (tail : List Char) :
    Leads (runMoveSession tail) e e.ReportsElsewhere := by
  unfold runMoveSession
  refine leads_reads (slotArgument_reads tail) (fun slot _ => ?_) fun _ => trivial
  refine (moveSession_outcome e slot).then ?_ fun _ _ _ => trivial
  rintro n _ ⟨-, -, -, rfl⟩
  exact leads_pure.mpr ⟨rfl, fun _ => ⟨rfl, rfl, rfl⟩⟩

theorem runQuit_elsewhere (h : e.Held) (tail : List Char) :
    Leads (runQuit tail) e e.ReportsElsewhere := by
  unfold runQuit
  refine leads_reads (noTail_reads _ tail) (fun _ _ => ?_) fun _ => trivial
  rw [leads_get_bind]
  refine (guardUnsaved_outcome e _).then ?_ fun _ _ _ => trivial
  rintro _ _ ⟨-, rfl⟩
  have hd : e.disarmed.Held := ⟨h.vacant, h.accounts⟩
  refine (closeSession_outcome hd).then (fun slot e' hclosed => ?_) fun _ _ _ => trivial
  cases slot with
  | some n => exact elsewhere_switch _
  | none =>
    -- the last session is not closed
    obtain ⟨-, rfl⟩ := hclosed
    exact leads_pure.mpr ⟨rfl, fun _ => e.stays_disarmed⟩

theorem editSession_elsewhere (digits : List Char) :
    Leads (editSession digits) e e.ReportsElsewhere := by
  unfold editSession
  refine elsewhere_after fun n _ => elsewhere_after fun created _ => elsewhere_after fun _ e₁ => ?_
  cases created with
  | true => exact elsewhere_switch _
  | false =>
    dsimp only
    rw [if_neg (by simp), leads_get_bind]
    split
    · exact elsewhere_switch _
    · exact elsewhere_switch _

theorem showLoaded_elsewhere (path : List Char) (onTop : Bool) (loaded : Loaded) :
    Leads (showLoaded path onTop loaded) e' e.ReportsElsewhere := by
  unfold showLoaded
  rw [leads_get_bind]
  cases loaded with
  | file bytes =>
    dsimp only
    split
    · exact leads_throw.mpr trivial
    · split
      · exact elsewhere_after fun _ _ => elsewhere_after fun _ _ => elsewhere_after fun _ _ =>
          elsewhere_switch _
      · exact elsewhere_after fun _ _ => elsewhere_after fun _ _ => elsewhere_after fun _ _ =>
          elsewhere_switch _
  | directory entries =>
    dsimp only
    split
    · exact leads_throw.mpr trivial
    · split
      · exact elsewhere_after fun _ _ => elsewhere_after fun _ _ => elsewhere_after fun _ _ =>
          elsewhere_switch _
      · exact elsewhere_after fun _ _ => elsewhere_after fun _ _ => elsewhere_after fun _ _ =>
          elsewhere_switch _

theorem runEdit_elsewhere (tail : List Char) :
    Leads (runEdit tail) e (Engine.Brings fun _ => e.ReportsElsewhere) := by
  have hload (path : List Char) (onTop : Bool) (e₁ : Engine) : Leads (pure (Progress.load path
      fun answer => do showLoaded path onTop (← liftExcept (ofStorage path answer)))) e₁
      (Engine.Brings fun _ => e.ReportsElsewhere) :=
    leads_pure.mpr fun answer => elsewhere_after fun _ _ => showLoaded_elsewhere _ _ _
  unfold runEdit
  dsimp only
  split
  · rw [leads_get_bind]
    exact leads_pure.mpr ⟨rfl, fun _ => .refl e⟩
  · split
    · exact leads_done (editSession_elsewhere _)
    · rw [leads_get_bind]
      split
      · refine leads_bind.mpr fun answer e₁ _ => ?_
        cases answer with
        | ok _ => exact hload _ _ e₁
        | error err => exact trivial
      · exact hload _ _ e

theorem noteWritten_elsewhere (path : List Char) (range : LineRange) (append : Bool) (count : Nat) :
    Leads (noteWritten path range append count) e e.ReportsElsewhere := by
  unfold noteWritten rememberFile
  rw [leads_get_bind, leads_modifyWindow_bind]
  dsimp only
  split
  · rw [leads_modifyWindow_bind]
    exact leads_pure.mpr ⟨rfl, fun _ => ⟨rfl, rfl, rfl⟩⟩
  · exact leads_pure.mpr ⟨rfl, fun _ => ⟨rfl, rfl, rfl⟩⟩

theorem runWrite_elsewhere (h : e.Sound) (range : LineRange) (tail : List Char) :
    Leads (runWrite range tail) e (Engine.Brings fun _ => e.ReportsElsewhere) := by
  have hwrite (append : Bool) (rest : List Char) : Leads (do
      let path ← targetFile rest
      let bytes ← extractRange range.start range.stop
      return Progress.write path bytes append fun answer => do
        noteWritten path range append (← liftExcept (ofStorage path answer))) e
      (Engine.Brings fun _ => e.ReportsElsewhere) := by
    refine (targetFile_ends rest).leads.then ?_ fun _ _ _ => trivial
    rintro path _ ⟨rfl, -⟩
    refine (extractRange_spans h range).then ?_ fun _ _ _ => trivial
    rintro bytes _ ⟨rfl, -⟩
    refine leads_pure.mpr fun answer => ?_
    refine leads_reads (ofStorage_reads path answer) (fun count _ => ?_) fun _ => trivial
    exact noteWritten_elsewhere path range append count
  unfold runWrite
  dsimp only
  exact hwrite _ _

theorem runCommand_elsewhere (h : e.Sound) {cmd : Option Command} (hcmd : worksInPlace cmd = false)
    (range : LineRange) (tail : List Char) :
    Leads (runCommand cmd range tail) e (Engine.Brings fun _ => e.ReportsElsewhere) := by
  unfold runCommand
  cases cmd with
  | none => cases hcmd
  | some cmd =>
    cases cmd with
    | undo => exact leads_done (runUndo_elsewhere tail)
    | edit => exact runEdit_elsewhere tail
    | quit => exact leads_done (runQuit_elsewhere h.toHeld tail)
    | back => exact leads_done (runBack_elsewhere tail)
    | moveSession => exact leads_done (runMoveSession_elsewhere tail)
    | write => exact runWrite_elsewhere h range tail
    | _ => cases hcmd

end

end EditM

end LineEditor
