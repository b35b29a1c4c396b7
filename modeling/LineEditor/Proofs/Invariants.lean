import LineEditor.Proofs.Bulk
import LineEditor.Proofs.Frames

/-!
# Invariants of commands

A property may survive new lines on some terms only: which edits it allows, who may bring bytes from
outside, what may be typed and loaded. What is asked of it is still said of engines, one change at a
time; that the commands on lines, global commands and typed text keep to the terms is shown here.
-/

namespace LineEditor

/-- Whatever edit the plan makes, it is as `P` says. -/
def Plan.Makes (P : Edit → Prop) : Plan → Prop
  | .edit change _ _ => P change
  | _ => True

/-- The terms on which a property survives new lines and new windows. -/
structure Terms where
  /-- The edits allowed of a window with this number and these rows. -/
  edits : Limits → Nat → List Row → Edit → Prop
  /-- Bytes from outside may be put into the current window. -/
  takes : Engine → Prop
  typed : List Char → Prop
  loaded : Loaded → Prop
  /-- The flags with which windows are opened from outside. -/
  opens : WindowFlags → Prop

def Terms.Allow (t : Terms) (e : Engine) (change : Edit) : Prop :=
  t.edits e.limits e.window.id (e.pool.rows e.window.lines) change

namespace Engine

/-- The property survives the commands on lines, on the terms `t`. An edit is noted. -/
structure LineWork (I : Engine → Prop) (t : Terms) : Prop extends Local I where
  plan : ∀ {e}, I e → ∀ {cmd : Option LineCommand} {range : LineRange}, range.Within e.window.dol →
    (0 < range.start ∨ (cmd.map Command.line).any Command.allowsZero) →
    (cmd.map Command.line).all e.window.mode.allows = true → ∀ tail,
    Query.Yields (e.view.plan cmd range tail) (Plan.Makes (t.Allow e))
  edit : ∀ {e}, I e → ∀ {change : Edit}, change.Fits e.window.dol → t.Allow e change →
    ∀ {w p}, change.perform e.window e.pool = .ok (w, p) →
      I { e.setWindow w.noteEdit with pool := p }

/-- The property survives all that is done to the lines of the current window, on the terms `t`. The
lines of a file that is read are noted like an edit. -/
structure Sustained (I : Engine → Prop) (t : Terms) : Prop extends LineWork I t where
  type : ∀ {e}, I e → ∀ {entry}, e.entry = some entry → ∀ {text}, t.typed text →
    I { e with entry := some { entry with lines := entry.lines ++ [Utf8.ofChars text] } }
  commit : ∀ {e}, I e → ∀ {entry}, e.entry = some entry → entry.window = e.window.id →
    (EditM.entryEdit entry).Fits e.window.dol → ∀ {removed}, EditM.entryRemoved entry = .ok removed →
    (removed < entry.lines.length →
      e.window.dol + (entry.lines.length - removed) ≤ e.limits.lines) →
    t.Allow e (EditM.entryEdit entry)
  read : ∀ {e}, I e → e.window.mode = .normal → ∀ {e' place blob n},
    e.run (EditM.insertBulk place blob) = .ok (.ok n, e') →
    e.Received e' place ((Blob.split blob).lines.map Row.plain) →
    e'.window.flags = EditM.bulkFlags e.window place blob → I (e'.setWindow e'.window.noteEdit)

/-- The property survives every change on the terms `t`. -/
structure Kept (I : Engine → Prop) (t : Terms) : Prop extends Framed I t.opens, Sustained I t where
  /-- A window that shows neither a page nor a directory may take bytes from outside. -/
  receptive : ∀ {e}, I e → e.window.mode = .normal → t.takes e
  bulk : ∀ {e}, I e → t.takes e → ∀ {e' place blob n},
    e.run (EditM.insertBulk place blob) = .ok (.ok n, e') →
    e.Received e' place ((Blob.split blob).lines.map Row.plain) →
    e'.window.flags = EditM.bulkFlags e.window place blob → I e'
  listing : ∀ {e}, I e → t.takes e → ∀ {entries}, t.loaded (.directory entries) → ∀ {e' place n},
    e.run (EditM.insertDirectory place entries) = .ok (.ok n, e') →
    e.Received e' place (entries.map Row.ofEntry) →
    e'.window.flags = EditM.listingFlags e.window place entries → I e'
  update : ∀ {e}, I e → t.takes e → ∀ {n value}, 1 ≤ n → n ≤ e.window.dol →
    e.window.dol + ((Bytes.splitOn Bytes.newline value).length - 1) ≤ e.limits.lines →
    t.Allow e (.replace n n (Bytes.splitOn Bytes.newline value))

end Engine

namespace EditM

/-! ## Looking around -/

section
variable {I : Engine → Prop}

theorem maintains_printDot (print : Option PrintStyle) : Maintains I (printDot print) := by
  unfold printDot
  refine .bind .get fun e => ?_
  cases print with
  | none => exact .pure []
  | some style => exact .lift _

theorem maintains_checkCapacity (adding : Nat) : Maintains I (checkCapacity adding) := by
  unfold checkCapacity
  exact .bind .get fun e => .liftExcept _

end

/-! ## Edits -/

section
variable {I : Engine → Prop} {t : Terms} (hI : Engine.LineWork I t) {e : Engine}
include hI

theorem edit_leads (h : I e) {change : Edit} (hfit : change.Fits e.window.dol)
    (hallow : t.Allow e change) : Leads (edit change) e fun _ e' => I e' := by
  unfold edit
  rw [leads_onWindow_bind]
  intro w p hrun
  exact leads_modify.mpr (hI.edit h hfit hallow hrun)

theorem snapshot_edit_leads (h : I e) {change : Edit} (hfit : change.Fits e.window.dol)
    (hallow : t.Allow e change) {rest : EditM β} (hrest : Maintains I rest) : Leads (do
      snapshot
      edit change
      rest) e fun _ e' => I e' := by
  refine (snapshot_leads hI.toLocal h).then ?_ fun _ _ h₁ => h₁.1
  rintro _ e₁ ⟨h₁, hwindow, hlimits, hrows⟩
  -- the terms look at nothing that recording changes
  have hlines : e₁.window.lines = e.window.lines := by rw [hwindow]
  have hid : e₁.window.id = e.window.id := by rw [hwindow]
  have hdone : Leads (edit change) e₁ fun _ e' => I e' := by
    refine edit_leads hI h₁ ?_ ?_
    · unfold Window.dol
      rw [hlines]
      exact hfit
    · unfold Terms.Allow
      rw [hlimits, hid, hlines, hrows]
      exact hallow
  exact hdone.then (fun _ e₂ h₂ => hrest e₂ h₂) fun _ _ h₂ => h₂

theorem carryOut_leads (h : I e) (inGlobal : Bool) {plan : Plan} (hfit : plan.Fits e.window.dol)
    (hallow : plan.Makes (t.Allow e)) : Leads (carryOut inGlobal plan) e fun _ e' => I e' := by
  cases plan with
  | look dot output =>
    have hlook : Maintains I (carryOut inGlobal (.look dot output)) := by
      unfold carryOut
      cases dot with
      | none => exact .pure _
      | some n => exact (maintains_goto hI.toLocal n).bind fun _ => .pure _
    exact hlook e h
  | label name line =>
    have hlabel : Maintains I (carryOut inGlobal (.label name line)) := by
      unfold carryOut
      exact (maintains_note hI.toLocal fun w => w.noted_setLabel name line).bind fun _ => .pure _
    exact hlabel e h
  | edit change shape print =>
    have hrest : Maintains I (do return Report.ofEdit shape (← printDot print)) :=
      (maintains_printDot print).bind fun _ => .pure _
    unfold carryOut
    cases inGlobal with
    | true => exact (edit_leads hI h hfit hallow).then (fun _ e₁ h₁ => hrest e₁ h₁) fun _ _ h₁ => h₁
    | false => exact snapshot_edit_leads hI h hfit hallow hrest

theorem runLine_leads (h : I e) (inGlobal : Bool) (cmd : Option LineCommand) {range : LineRange}
    (hr : range.Within e.window.dol)
    (hz : 0 < range.start ∨ (cmd.map Command.line).any Command.allowsZero)
    (hall : (cmd.map Command.line).all e.window.mode.allows = true) (tail : List Char) :
    Leads (runLine inGlobal cmd range tail) e fun _ e' => I e' := by
  have hfits := View.plan_yields (hI.held h).readable hr hz tail
  have hmakes := hI.plan h hr hz hall tail
  unfold runLine
  refine ((query_gives (e.view.plan_traces cmd range tail) hfits).and (query_leads hmakes)).then ?_ ?_
  · rintro plan _ ⟨⟨⟨r, hrecalls, rfl⟩, hsuits⟩, -, hallow⟩
    exact carryOut_leads hI (hI.remember h r hrecalls) inGlobal hsuits.fits hallow
  · rintro err _ ⟨⟨⟨r, hrecalls, rfl⟩, -⟩, -⟩
    exact hI.remember h r hrecalls

/-- A line may be replaced from outside, if the terms allow that edit. -/
theorem updateLine_works (h : I e) (n : Nat) (value : Bytes) (hallow : 1 ≤ n → n ≤ e.window.dol →
      e.window.dol + ((Bytes.splitOn Bytes.newline value).length - 1) ≤ e.limits.lines →
      t.Allow e (.replace n n (Bytes.splitOn Bytes.newline value))) :
    Leads (updateLine n value) e fun _ e' => I e' := by
  unfold updateLine
  rw [leads_get_bind]
  refine leads_reads (e.view.checkLine_reads n) (fun _ ⟨h₁, hn⟩ => ?_) fun _ => h
  have hne := List.length_pos_iff.mpr (Bytes.splitOn_ne_nil Bytes.newline value)
  have hallow := hallow h₁ hn
  dsimp only
  generalize Bytes.splitOn Bytes.newline value = lines at hne hallow ⊢
  refine leads_bind.mpr (leads_lift.mpr fun more hmore => ?_)
  rw [difference_of_le hne] at hmore
  cases hmore
  rw [Post.after_ok]
  refine leads_reads (e.view.checkCapacity_reads _) (fun _ hroom => ?_) fun _ => h
  have hfit : (Edit.replace n n lines).Fits e.window.dol := ⟨h₁, Nat.le_refl n, hn⟩
  -- what is left is an edit that is not recorded
  have hsame : (do
      onWindow fun w p => w.replaceLines p n n lines
      modifyWindow Window.noteEdit) = edit (.replace n n lines) := rfl
  rw [hsame]
  exact edit_leads hI h hfit (hallow hroom)

/-! ## Global commands -/

theorem maintains_runSubcommand (text : List Char) : Maintains I (runSubcommand text) := by
  intro e h
  unfold runSubcommand
  rw [CommandLine.lift_read]
  refine leads_reads (CommandLine.parse_reads text) (fun line _ => ?_) fun _ => h
  refine leads_reads (identify_reads line.letter) (fun cmd _ => ?_) fun _ => h
  rw [leads_get_bind]
  refine leads_reads (checkMode_reads _ cmd) (fun _ hall => ?_) fun _ => h
  refine leads_reads (checkGlobal_reads cmd) (fun lineCmd hcmd => ?_) fun _ => h
  refine (query_gives (e.view.locate_traces true cmd line.range)
    (View.locate_yields (hI.held h).readable true cmd line.range)).then ?_ ?_
  · rintro range _ ⟨⟨r, hrecalls, rfl⟩, hr, hz⟩
    rw [hcmd] at hall hz
    exact runLine_leads hI (hI.remember h r hrecalls) true lineCmd hr hz hall line.tail
  · rintro err _ ⟨⟨r, hrecalls, rfl⟩, -⟩
    exact hI.remember h r hrecalls

theorem maintains_clearMark (n : Nat) : Maintains I (modifyWindow fun w => w.setMark n false) := by
  refine .modify fun e h => ?_
  cases n with
  | zero => exact hI.note h ⟨rfl, rfl, rfl, rfl, rfl⟩
  | succ i => exact hI.mark h (LineMap.clearMarks_modify _ i false)

theorem maintains_visit (text : List Char) (n : Nat) (last : Option Nat) :
    Maintains I (visit text n last) := by
  unfold visit
  refine (maintains_clearMark hI n).bind fun _ => (maintains_goto hI.toLocal n).bind fun _ => ?_
  refine (maintains_runSubcommand hI text).attempt.bind fun outcome => ?_
  split
  · exact .pure _
  · exact .pure _
  · exact .throw _

theorem maintains_visitMarked (text : List Char) (fuel n : Nat) (last : Option Nat) :
    Maintains I (visitMarked text fuel n last) := by
  -- on the number of visits that may come
  induction fuel generalizing n last with
  | zero => exact .pure _
  | succ fuel ih =>
    unfold visitMarked
    refine .bind .get fun e => ?_
    cases e.window.lines.nextMarked? n with
    | none => exact .pure _
    | some k =>
      refine (maintains_visit hI text k last).bind fun report => ?_
      exact .bind .get fun e₁ => (ih _ _).bind fun rest => .pure _

theorem maintains_runGlobal (inverted : Bool) (range : LineRange) (tail : List Char) :
    Maintains I (runGlobal inverted range tail) := by
  unfold runGlobal
  refine (maintains_query hI.toLocal fun v => v.globalRequest_traces inverted range tail).bind fun request => ?_
  have hmark : Maintains I (modifyWindow fun w =>
      { w with lines := w.lines.markRun (range.start - 1) request.hits }) :=
    .modify fun e h => hI.mark h (LineMap.clearMarks_markRun _ _ _)
  have hclear : Maintains I (modifyWindow Window.clearMarks) :=
    .modify fun e h => hI.mark h (LineMap.unmarked_clearMarks _).clearMarks_eq
  refine hmark.bind fun _ => (maintains_snapshot hI.toLocal).bind fun _ => .bind .get fun e => ?_
  refine (maintains_visitMarked hI _ _ _ _).attempt.bind fun outcome => ?_
  exact hclear.bind fun _ => .liftExcept outcome

end

/-! ## Typed text -/

section
variable {I : Engine → Prop} {t : Terms} (hI : Engine.LineWork I t) {e : Engine}
include hI

theorem commitEntry_leads (h : I e) {entry : TextEntry} (hfit : (entryEdit entry).Fits e.window.dol)
    (hallow : entry.window = e.window.id → ∀ {removed}, entryRemoved entry = .ok removed →
      (removed < entry.lines.length →
        e.window.dol + (entry.lines.length - removed) ≤ e.limits.lines) →
      t.Allow e (entryEdit entry)) :
    Leads (commitEntry entry) e fun _ e' => I e' := by
  unfold commitEntry
  rw [leads_get_bind]
  simp only
  split
  · exact leads_pure.mpr h
  · rename_i hsame
    refine leads_bind.mpr (leads_lift.mpr fun removed hremoved => ?_)
    rw [Post.after_ok]
    have hput (hroom : removed < entry.lines.length →
        e.window.dol + (entry.lines.length - removed) ≤ e.limits.lines) : Leads (do
        snapshot
        edit (entryEdit entry)
        return Report.ofEdit true []) e fun _ e' => I e' :=
      snapshot_edit_leads hI h hfit (hallow (not_not.mp hsame) hremoved hroom) (.pure _)
    split
    · exact leads_pure.mpr h
    · split
      · unfold checkCapacity
        rw [bind_assoc, leads_get_bind]
        exact leads_reads (e.view.checkCapacity_reads _) (fun _ hroom => hput fun _ => hroom) fun _ => h
      · rename_i hfew
        exact hput fun hmore => absurd hmore hfew

end

section
variable {I : Engine → Prop} {t : Terms} (hI : Engine.Sustained I t) {e : Engine}
include hI

theorem beginEntry_leads (h : I e) (hmode : e.window.mode = .normal) (after : Nat)
    (replace : Option (Nat × Nat)) : Leads (beginEntry after replace) e fun _ e' => I e' := by
  unfold beginEntry
  rw [leads_modify_bind]
  exact leads_pure.mpr (hI.begin h hmode after replace)

theorem typeLine_leads (hs : e.Steady) (h : I e) {entry : TextEntry} (hentry : e.entry = some entry)
    {text : List Char} (htext : t.typed text) : Leads (typeLine entry text) e fun _ e' => I e' := by
  have hfit := (hs.entry entry hentry).fits
  unfold typeLine
  split
  · rw [leads_modify_bind]
    exact commitEntry_leads hI.toLineWork (hI.untype h) hfit fun hsame _ => hI.commit h hentry hsame hfit
  · rw [leads_modify_bind]
    exact leads_pure.mpr (hI.type h hentry htext)

end

/-! ## Bytes from outside -/

section
variable {I : Engine → Prop} {t : Terms} (hI : Engine.Kept I t) {e : Engine} (htakes : t.takes e)
include hI htakes

theorem insertBulk_leads (h : I e) (place : Nat) (blob : Bytes) :
    Leads (insertBulk place blob) e fun _ e' => I e' := by
  intro answer e' hrun
  have hpost := insertBulk_receives (hI.held h) place blob answer e' hrun
  cases answer with
  | error err =>
    rw [show e' = e from hpost]
    exact h
  | ok n => exact hI.bulk h htakes hrun hpost.2.1 hpost.2.2

theorem insertDirectory_leads (h : I e) (place : Nat) {entries : List (Bytes × Option Suffix)}
    (hentries : t.loaded (.directory entries)) :
    Leads (insertDirectory place entries) e fun _ e' => I e' := by
  intro answer e' hrun
  have hpost := insertDirectory_receives (hI.held h) place entries answer e' hrun
  cases answer with
  | error err =>
    rw [show e' = e from hpost]
    exact h
  | ok n => exact hI.listing h htakes hentries hrun hpost.2.1 hpost.2.2

theorem updateLine_leads (h : I e) (n : Nat) (value : Bytes) :
    Leads (updateLine n value) e fun _ e' => I e' :=
  updateLine_works hI.toLineWork h n value fun h₁ hn => hI.update h htakes h₁ hn

end

end EditM

end LineEditor
