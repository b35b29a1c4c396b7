import LineEditor.Proofs.Recorded

/-!
# Commands on lines

A plan that fits the window is carried out without error. Within a global command this is work in
the recorded window; on a line of its own, an edit makes the record first.
-/

namespace LineEditor.EditM

section
variable {e : Engine}

theorem edit_ends (h : e.Sound) (hn : e.entry = none) {change : Edit}
    (hfit : change.Fits e.window.dol) : Ends (edit change) e (.sure fun _ e' => e.Worked e') := by
  unfold edit
  have hdone := Edit.perform_edited h.consistent h.accounts hfit
  refine (onWindow_ends h (hdone.mono fun _ hr => ⟨hr, .inl hn⟩)).sure_then fun _ e' hw => ?_
  exact ends_modify.mpr (hw.trans (noteEdit_worked hw.sound))

/-- An edit on a line of its own makes the record first. -/
theorem snapshot_edit_then (h : e.Ready) {change : Edit} (hfit : change.Fits e.window.dol)
    {rest : EditM β} {post : Post Engine β}
    (hok : ∀ e', e.Recorded e' → e'.window.lines.Unmarked → Ends rest e' post) : Ends (do
      snapshot
      edit change
      rest) e post := by
  refine snapshot_then h fun e₁ hrec hdol hunmarked _ => ?_
  rw [← hdol] at hfit
  refine (edit_ends hrec.sound hrec.untyped hfit).sure_then fun _ e₂ hw => ?_
  exact hok e₂ (hrec.worked hw) (hw.unmarked hunmarked)

theorem printDot_ends (h : e.Sound) (print : Option PrintStyle) :
    Ends (printDot print) e (.sure fun _ e' => e' = e) := by
  unfold printDot
  simp only [ends_bind, ends_get, Post.after_ok]
  cases print with
  | none => exact ends_pure.mpr rfl
  | some style => exact ends_lift.mpr ((h.readable.render _ style).mono fun _ _ => rfl)

/-- A plan without an edit is carried out in the same way everywhere. -/
theorem carryOut_look_ends (h : e.Sound) (hn : e.entry = none) {plan : Plan}
    (hfit : plan.Fits e.window.dol) (hplan : ∀ change shape print, plan ≠ .edit change shape print)
    (inGlobal : Bool) :
    Ends (carryOut inGlobal plan) e
      (.sure fun report e' => e.Worked e' ∧ report.changed = false) := by
  cases plan with
  | look dot output =>
    unfold carryOut
    cases dot with
    | none => exact ends_pure.mpr ⟨h.worked_note rfl rfl rfl rfl, rfl⟩
    | some n =>
      exact (goto_ends h hn hfit.1 hfit.2).sure_then fun _ e' hw => ends_pure.mpr ⟨hw, rfl⟩
  | label name line =>
    unfold carryOut
    rw [ends_modifyWindow_bind, ends_pure]
    refine ⟨h.worked_window (Window.setLabel_id name line) (h.consistent.setLabel name line) ?_ ?_, rfl⟩
    · rw [Window.setLabel_lines]
    · rw [Window.setLabel_lines]
      exact id
  | edit change shape print => exact absurd rfl (hplan change shape print)

theorem carryOut_ends (h : e.Sound) (hn : e.entry = none) {plan : Plan}
    (hfit : plan.Fits e.window.dol) :
    Ends (carryOut true plan) e (.sure fun _ e' => e.Worked e') := by
  cases plan with
  | edit change shape print =>
    unfold carryOut
    refine (edit_ends h hn hfit).sure_then fun _ e' hw => ?_
    refine (printDot_ends hw.sound print).sure_then fun _ e'' he => ends_pure.mpr ?_
    rw [he]
    exact hw
  | look dot output =>
    exact (carryOut_look_ends h hn hfit (by simp) true).of_sure fun _ _ hp => hp.1
  | label name line =>
    exact (carryOut_look_ends h hn hfit (by simp) true).of_sure fun _ _ hp => hp.1

theorem carryOut_settles (h : e.Ready) {plan : Plan} (hfit : plan.Fits e.window.dol) :
    Ends (carryOut false plan) e e.Settles := by
  have hlook (hplan : ∀ change shape print, plan ≠ .edit change shape print) :
      Ends (carryOut false plan) e e.Settles := by
    refine (carryOut_look_ends h.toSound h.untyped hfit hplan false).of_sure fun _ e' hp => ?_
    exact (hp.1.steady h.toSteady).settles hp.2
  cases plan with
  | edit change shape print =>
    unfold carryOut
    refine snapshot_edit_then h hfit fun e₁ hrec hunmarked => ?_
    refine (printDot_ends hrec.sound print).sure_then fun _ e₂ he => ends_pure.mpr ?_
    rw [he]
    exact hrec.settles hunmarked _
  | look dot output => exact hlook (by simp)
  | label name line => exact hlook (by simp)

section
variable (cmd : Option LineCommand) {range : LineRange}

theorem runLine_ends (h : e.Sound) (hn : e.entry = none) (hr : range.Within e.window.dol)
    (hz : 0 < range.start ∨ (cmd.map Command.line).any Command.allowsZero) (tail : List Char) :
    Ends (runLine true cmd range tail) e fun _ e' => e.Worked e' := by
  unfold runLine
  refine (query_ends (View.plan_yields h.readable hr hz tail)).then ?_ ?_
  · rintro plan e' ⟨hq, hsuits⟩
    have hw := hq.worked h hn
    obtain ⟨r, rfl, -⟩ := hq
    exact (carryOut_ends hw.sound hn hsuits.fits).of_sure fun _ e'' hp => hw.trans hp
  · exact fun err e' hq => hq.1.worked h hn

theorem runLine_settles (h : e.Ready) (hr : range.Within e.window.dol)
    (hz : 0 < range.start ∨ (cmd.map Command.line).any Command.allowsZero) (tail : List Char) :
    Ends (runLine false cmd range tail) e e.Settles := by
  unfold runLine
  refine (query_ends (View.plan_yields h.toSound.readable hr hz tail)).then ?_ ?_
  · rintro plan e' ⟨hq, hsuits⟩
    have hready := hq.ready h
    have hun := hq.unaltered
    obtain ⟨r, rfl, -⟩ := hq
    exact (carryOut_settles hready hsuits.fits).mono fun answer e'' hp => hun.settles hp
  · exact fun err e' hq => hq.1.unaltered.refused (hq.1.ready h).toSteady hq.2

end

end

end LineEditor.EditM
