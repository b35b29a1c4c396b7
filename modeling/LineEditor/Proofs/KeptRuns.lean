import LineEditor.Proofs.Breaches
import LineEditor.Proofs.Invariants
import LineEditor.Proofs.Requests

/-!
# Invariants of runs

From the commands on lines to whole runs: a property that survives every change on some terms is
kept by every line of input and every other call that keeps to the terms, whatever the file system
answers. A command that puts text into a window, be it from a file or from the user, is refused where
pages are shown, or opens a window for it.
-/

namespace LineEditor

/-- What was loaded, if anything, is `loaded`. -/
def Traffic.Loads (loaded : Loaded → Prop) : Traffic → Prop
  | .load _ (.ok l) => loaded l
  | _ => True

/-- Whatever the file system answers, if it is `loaded` that it may answer, the command ends where
`I` holds. -/
def Engine.Arrives (I : Engine → Prop) (loaded : Loaded → Prop) : Post Engine Progress :=
  Brings fun x _ e => x.Loads loaded → I e

namespace EditM

/-! ## Sessions and names -/

section
variable {I : Engine → Prop}

theorem maintains_targetFile (tail : List Char) : Maintains I (targetFile tail) := by
  unfold targetFile
  dsimp only
  split
  · refine .bind .get fun e => ?_
    split
    · exact .pure _
    · exact .throw _
  · exact .pure _

theorem maintains_extractRange (start stop : Nat) : Maintains I (extractRange start stop) := by
  unfold extractRange
  exact .bind .get fun e => (Maintains.liftExcept _).bind fun _ => .lift _

theorem maintains_fetchLine (n : Nat) : Maintains I (fetchLine n) := by
  unfold fetchLine
  exact .bind .get fun e => (Maintains.liftExcept _).bind fun _ => (Maintains.lift _).bind fun _ =>
    .pure _

end

section
variable {I : Engine → Prop} {opens : WindowFlags → Prop} (hI : Engine.Framed I opens)
include hI

theorem maintains_guardUnsaved (changed : Bool) : Maintains I (guardUnsaved changed) := by
  unfold guardUnsaved
  refine .bind .get fun e => ?_
  split
  · exact (Maintains.modify fun e h => hI.arm h true).bind fun _ => .throw _
  · exact .modify fun e h => hI.arm h false

theorem maintains_editSession (digits : List Char) : Maintains I (editSession digits) := by
  unfold editSession
  refine (Maintains.liftExcept _).bind fun n => (maintains_switchSession hI n).bind fun created => ?_
  refine (Maintains.modify fun e h => hI.arm h false).bind fun _ => ?_
  dsimp only
  split
  · exact .pure _
  · refine .bind .get fun e => ?_
    split <;> exact .pure _

theorem maintains_runQuit (tail : List Char) : Maintains I (runQuit tail) := by
  unfold runQuit
  refine (Maintains.liftExcept _).bind fun _ => .bind .get fun e => ?_
  refine (maintains_guardUnsaved hI _).bind fun _ => (maintains_closeSession hI).bind fun slot => ?_
  cases slot with
  | some n => exact .pure _
  | none => exact .pure _

theorem maintains_runBack (tail : List Char) : Maintains I (runBack tail) := by
  unfold runBack
  exact (Maintains.liftExcept _).bind fun _ => (maintains_popWindow hI).bind fun _ => .pure _

theorem maintains_runMoveSession (tail : List Char) : Maintains I (runMoveSession tail) := by
  unfold runMoveSession
  exact (Maintains.liftExcept _).bind fun slot => (maintains_moveSession hI slot).bind fun _ => .pure _

theorem maintains_runUndo (tail : List Char) : Maintains I (runUndo tail) := by
  unfold runUndo
  exact (Maintains.liftExcept _).bind fun _ => (maintains_undo hI).bind fun _ => .pure _

theorem maintains_noteWritten (path : List Char) (range : LineRange) (append : Bool) (count : Nat) :
    Maintains I (noteWritten path range append count) := by
  have hname : Maintains I (rememberFile path) :=
    maintains_note hI.toLocal fun _ => ⟨rfl, rfl, rfl, rfl, rfl⟩
  have hsaved : Maintains I (modifyWindow fun w => { w with flags.changed := false }) :=
    .modify fun _ h => hI.save h
  unfold noteWritten
  refine .bind .get fun e => hname.bind fun _ => ?_
  dsimp only
  split
  · exact hsaved.bind fun _ => .pure _
  · exact .pure _

end

/-! ## Commands in the current window -/

/-- Whether a command works in the current window, on its lines, its dot or its name. -/
def worksInPlace : Option Command → Bool
  | none | some (.line _) | some .append | some .insert | some .change | some (.global _)
  | some .fileName | some .read => true
  | _ => false

theorem arrives_done {I : Engine → Prop} {e : Engine} {x : EditM Report} {loaded : Loaded → Prop}
    (h : Leads x e fun _ e' => I e') : Leads (.done <$> x) e (Engine.Arrives I loaded) :=
  leads_done (h.mono fun _ _ hp _ => hp)

section
variable {I : Engine → Prop} {t : Terms} (hI : Engine.Sustained I t) {e : Engine}
include hI

theorem maintains_runFileName (tail : List Char) : Maintains I (runFileName tail) := by
  unfold runFileName
  dsimp only
  split
  case' isTrue =>
    refine .bind (maintains_note hI.toLocal fun _ => ⟨rfl, rfl, rfl, rfl, rfl⟩) fun _ => ?_
  all_goals
    refine .bind .get fun e => ?_
    split
    · exact .pure _
    · exact .throw _

theorem insertFile_leads (h : I e) (hmode : e.window.mode = .normal) (path : List Char)
    (place : Nat) (bytes : Bytes) : Leads (insertFile path place bytes) e fun _ e' => I e' := by
  unfold insertFile checkCapacity
  rw [bind_assoc, leads_get_bind]
  refine leads_reads (e.view.checkCapacity_reads _) (fun _ _ => ?_) fun _ => h
  unfold rememberFile
  rw [leads_modifyWindow_bind]
  have hnamed : I (e.setWindow { e.window with fileName := e.window.fileName <|> some path }) :=
    hI.note h ⟨rfl, rfl, rfl, rfl, rfl⟩
  split
  · exact leads_pure.mpr hnamed
  · refine (snapshot_leads hI.toLocal hnamed).then ?_ fun _ _ h₁ => h₁.1
    rintro _ e₁ ⟨h₁, hwindow, -, -⟩
    have hmode₁ : e₁.window.mode = .normal := by
      rw [hwindow]
      exact hmode
    -- the lines that were read are noted as an edit only when they are in
    have hreceives := (insertBulk_receives (hI.held h₁) place bytes).and (leads_self _ e₁)
    refine hreceives.then ?_ fun err e₂ hpost => ?_
    · rintro n e₂ ⟨⟨-, hreceived, hflags⟩, hrun⟩
      rw [leads_modifyWindow_bind]
      exact leads_pure.mpr (hI.read h₁ hmode₁ hrun hreceived hflags)
    · rw [show e₂ = e₁ from hpost.1]
      exact h₁

theorem runRead_arrives (h : I e) (hmode : e.window.mode = .normal) (range : LineRange)
    (tail : List Char) (loaded : Loaded → Prop) :
    Leads (runRead range tail) e (Engine.Arrives I loaded) := by
  unfold runRead
  refine (targetFile_ends tail).leads.then ?_ ?_
  · rintro path _ ⟨rfl, -⟩
    refine leads_pure.mpr fun answer => ?_
    exact leads_reads (ofStorage_reads path answer)
      (fun bytes _ => (insertFile_leads hI h hmode path range.stop bytes).mono fun _ _ hp _ => hp)
      fun _ _ => h
  · rintro err _ ⟨rfl, -⟩
    exact fun _ => h

theorem runInPlace_arrives (h : I e) {cmd : Option Command} (hcmd : worksInPlace cmd = true)
    {range : LineRange} (hall : cmd.all e.window.mode.allows = true) (hr : range.Within e.window.dol)
    (hz : 0 < range.start ∨ cmd.any Command.allowsZero) (tail : List Char) (loaded : Loaded → Prop) :
    Leads (runCommand cmd range tail) e (Engine.Arrives I loaded) := by
  have hdone {x : EditM Report} (hx : Maintains I x) :
      Leads (.done <$> x) e (Engine.Arrives I loaded) := arrives_done (hx e h)
  -- a command that begins or reads text is refused in a page and in a directory
  have hnormal {c : Command} (hc : e.window.mode.allows c = true)
      (hbrowse : Mode.browse.allows c = false) (hdirectory : Mode.directory.allows c = false) :
      e.window.mode = .normal :=
    Mode.eq_normal_of_allows hc hbrowse hdirectory
  have hbegin (letter : Char) {c : Command} (hc : e.window.mode.allows c = true)
      (hbrowse : Mode.browse.allows c = false) (hdirectory : Mode.directory.allows c = false)
      (place : Nat) (replace : Option (Nat × Nat)) : Leads (do
        liftExcept (noTail letter tail)
        beginEntry place replace) e fun _ e' => I e' :=
    leads_reads (noTail_reads letter tail)
      (fun _ _ => beginEntry_leads hI h (hnormal hc hbrowse hdirectory) place replace) fun _ => h
  unfold runCommand
  cases cmd with
  | none => exact arrives_done (runLine_leads hI.toLineWork h false none hr hz hall tail)
  | some cmd =>
    cases cmd with
    | line c => exact arrives_done (runLine_leads hI.toLineWork h false (some c) hr hz hall tail)
    | append => exact arrives_done (hbegin _ hall rfl rfl _ _)
    | insert => exact arrives_done (hbegin _ hall rfl rfl _ _)
    | change =>
      refine arrives_done (leads_reads (noTail_reads _ tail) (fun _ _ => ?_) (fun _ => h))
      refine leads_bind.mpr (leads_lift.mpr fun place _ => ?_)
      exact beginEntry_leads hI h (hnormal hall rfl rfl) place _
    | global inverted => exact hdone (maintains_runGlobal hI.toLineWork inverted range tail)
    | fileName => exact hdone (maintains_runFileName hI tail)
    | read => exact runRead_arrives hI h (hnormal hall rfl rfl) range tail loaded
    | _ => cases hcmd

end

/-! ## Files -/

section
variable {I : Engine → Prop} {t : Terms} (hI : Engine.Kept I t) {e : Engine}
include hI

theorem maintains_showLoaded (path : List Char) (onTop : Bool) {l : Loaded} (hl : t.loaded l) :
    Maintains I (showLoaded path onTop l) := by
  have hname (size : Nat) : Maintains I (do
      modifyWindow fun w => { w with fileName := some path }
      return Report.ofSwitch [toString size]) :=
    .bind (maintains_note hI.toLocal fun _ => ⟨rfl, rfl, rfl, rfl, rfl⟩) fun _ => .pure _
  -- a window opened for what was loaded is in no mode yet, so it takes bytes from outside
  have hopen {f : EditM Report} (hf : ∀ e, I e → t.takes e → Leads f e fun _ e' => I e') :
      Maintains I (if onTop then (do let _ ← pushWindow .none; f)
        else (do let _ ← replaceWindow .none; f)) := by
    have htakes {e₁ : Engine} (h₁ : I e₁) (hflags : e₁.window.flags = .none) : t.takes e₁ :=
      hI.receptive h₁ (by rw [Window.mode, hflags]; rfl)
    intro e h
    split
    · exact (pushWindow_leads hI.toFramed h hI.plain).then
        (fun _ e₁ h₁ => hf e₁ h₁.1 (htakes h₁.1 h₁.2)) fun _ _ h₁ => h₁.1
    · exact (replaceWindow_leads hI.toFramed h hI.plain).then
        (fun _ e₁ h₁ => hf e₁ h₁.1 (htakes h₁.1 h₁.2)) fun _ _ h₁ => h₁.1
  unfold showLoaded
  refine .bind .get fun e => ?_
  cases l with
  | file bytes =>
    dsimp only
    split
    · exact .throw _
    · refine hopen fun e₁ h₁ htakes => ?_
      exact (insertBulk_leads hI htakes h₁ 0 bytes).then (fun _ e₂ h₂ => hname _ e₂ h₂) fun _ _ h₂ => h₂
  | directory entries =>
    dsimp only
    split
    · exact .throw _
    · refine hopen fun e₁ h₁ htakes => ?_
      exact (insertDirectory_leads hI htakes h₁ 0 hl).then (fun size e₂ h₂ => hname size e₂ h₂)
        fun _ _ h₂ => h₂

theorem runEdit_arrives (h : I e) (tail : List Char) :
    Leads (runEdit tail) e (Engine.Arrives I t.loaded) := by
  have hload {e₁ : Engine} (h₁ : I e₁) (path : List Char) (onTop : Bool)
      (answer : Except String Loaded) : Leads (do
      showLoaded path onTop (← liftExcept (ofStorage path answer))) e₁
      fun _ e' => (Traffic.load path answer).Loads t.loaded → I e' := by
    cases answer with
    | ok l => exact fun answer e' hrun hl => maintains_showLoaded hI path onTop hl e₁ h₁ answer e' hrun
    | error text => exact leads_throw.mpr fun _ => h₁
  unfold runEdit
  dsimp only
  split
  · rw [leads_get_bind]
    exact leads_pure.mpr fun _ => h
  · split
    · exact arrives_done (maintains_editSession hI.toFramed _ e h)
    · rw [leads_get_bind]
      split
      · exact (maintains_guardUnsaved hI.toFramed _ e h).then
          (fun _ e₁ h₁ => leads_pure.mpr fun answer => hload h₁ _ _ answer) fun _ _ h₁ _ => h₁
      · exact leads_pure.mpr fun answer => hload h _ _ answer

theorem runWrite_arrives (h : I e) (range : LineRange) (tail : List Char) :
    Leads (runWrite range tail) e (Engine.Arrives I t.loaded) := by
  have hwrite (append : Bool) (rest : List Char) : Leads (do
      let path ← targetFile rest
      let bytes ← extractRange range.start range.stop
      return Progress.write path bytes append fun answer => do
        noteWritten path range append (← liftExcept (ofStorage path answer))) e
      (Engine.Arrives I t.loaded) := by
    refine (maintains_targetFile rest e h).then (fun path e₁ h₁ => ?_) fun _ _ h₁ _ => h₁
    refine (maintains_extractRange range.start range.stop e₁ h₁).then
      (fun bytes e₂ h₂ => leads_pure.mpr fun answer => ?_) fun _ _ h₂ _ => h₂
    have hnote := (Maintains.liftExcept (ofStorage path answer)).bind fun count =>
      maintains_noteWritten hI.toFramed path range append count
    exact (hnote e₂ h₂).mono fun _ _ hp _ => hp
  unfold runWrite
  dsimp only
  exact hwrite _ _

/-! ## Lines of input -/

theorem runCommand_arrives (h : I e) {cmd : Option Command} {range : LineRange}
    (hall : cmd.all e.window.mode.allows = true) (hr : range.Within e.window.dol)
    (hz : 0 < range.start ∨ cmd.any Command.allowsZero) (tail : List Char) :
    Leads (runCommand cmd range tail) e (Engine.Arrives I t.loaded) := by
  have hdone {x : EditM Report} (hx : Maintains I x) :
      Leads (.done <$> x) e (Engine.Arrives I t.loaded) := arrives_done (hx e h)
  by_cases hcmd : worksInPlace cmd = true
  · exact runInPlace_arrives hI.toSustained h hcmd hall hr hz tail t.loaded
  · unfold runCommand
    cases cmd with
    | none => exact absurd rfl hcmd
    | some cmd =>
      cases cmd with
      | undo => exact hdone (maintains_runUndo hI.toFramed tail)
      | edit => exact runEdit_arrives hI h tail
      | quit => exact hdone (maintains_runQuit hI.toFramed tail)
      | back => exact hdone (maintains_runBack hI.toFramed tail)
      | moveSession => exact hdone (maintains_runMoveSession hI.toFramed tail)
      | write => exact runWrite_arrives hI h range tail
      | _ => exact absurd rfl hcmd

theorem execute_arrives (h : I e) (text : List Char) :
    Leads (execute text) e (Engine.Arrives I t.loaded) := by
  have hbegun (cmd : Option Command) : I (e.begun cmd) := by
    rw [Engine.begun_eq]
    exact hI.arm h _
  have hrecalls {cmd : Option Command} {r : Recall} (hr : e.Recalls r) : (e.begun cmd).Recalls r := by
    rw [Engine.begun_eq]
    exact hr
  refine execute_recalls (fun _ _ _ => h)
    (fun q _ _ r hr _ => hI.remember (hbegun q.command) r (hrecalls hr)) ?_
  intro q _ range hrange hall r hr₁
  obtain ⟨hr, hz⟩ := Engine.rangeOf_within (hI.held h).readable hrange
  have h₁ := hI.remember (hbegun q.command) r (hrecalls hr₁)
  rw [Engine.begun_eq] at h₁ ⊢
  exact runCommand_arrives hI h₁ hall hr hz q.tail

theorem dispatch_arrives (hs : e.Steady) (h : I e) {line : List Char}
    (hline : t.typed (withoutNewline line)) :
    Leads (dispatch line) e (Engine.Arrives I t.loaded) := by
  unfold dispatch
  rw [leads_get_bind]
  split
  · rename_i entry hentry
    exact arrives_done (typeLine_leads hI.toSustained hs h hentry hline)
  · exact execute_arrives hI h _

end

end EditM

/-! ## Calls -/

/-- Whether a call puts bytes into the current window without a command. -/
def Call.brings : Call → Bool
  | .insertBulk _ _ | .insertDirectory _ _ | .updateLine _ _ => true
  | _ => false

/-- What is typed in the call is `typed`, and what it may load is `loaded`. -/
def Call.Supplies (typed : List Char → Prop) (loaded : Loaded → Prop) : Call → Prop
  | .line storage disk text => typed (EditM.withoutNewline text) ∧
      ∀ path l, storage.load disk path = .ok l → loaded l
  | .insertDirectory _ entries => loaded (.directory entries)
  | _ => True

/-- What the call opens is opened with such flags. -/
def Call.Opens (opens : WindowFlags → Prop) : Call → Prop
  | .pushWindow flags | .replaceWindow flags => opens flags
  | _ => True

theorem Call.opens_any {opens : WindowFlags → Prop} (c : Call) (h : ∀ flags, opens flags) :
    c.Opens opens := by
  cases c with
  | pushWindow flags => exact h flags
  | replaceWindow flags => exact h flags
  | _ => exact trivial

theorem Call.supplies_any {typed : List Char → Prop} {loaded : Loaded → Prop} (c : Call)
    (htyped : ∀ text, typed text) (hloaded : ∀ l, loaded l) : c.Supplies typed loaded := by
  cases c with
  | line storage disk text => exact ⟨htyped _, fun _ l _ => hloaded l⟩
  | insertDirectory place entries => exact hloaded _
  | _ => exact trivial

namespace Engine

section
variable {I : Engine → Prop} {t : Terms} (hI : Kept I t) {e e' : Engine}
include hI

theorem Kept.dispatchOn (hs : e.Steady) (h : I e) {storage : Storage σ} {disk disk' : σ}
    {line : List Char} (hline : t.typed (EditM.withoutNewline line))
    (hload : ∀ path l, storage.load disk path = .ok l → t.loaded l)
    {answer : Except EditError Report} (hrun : e.dispatchOn storage line disk = .ok (answer, e', disk')) :
    I e' := by
  refine dispatchOn_brings (EditM.dispatch_arrives hI hs h hline) hrun ?_
  unfold traffic
  split
  · rename_i progress _ _
    cases progress with
    | load path resume =>
      show (Traffic.load path (storage.load disk path)).Loads t.loaded
      cases hl : storage.load disk path with
      | ok l => exact hload path l hl
      | error text => exact trivial
    | _ => exact trivial
  · exact trivial

/-- A call keeps the property, if it keeps to the terms. -/
theorem Kept.perform (hs : e.Steady) (h : I e) {c : Call} (hc : c.Supplies t.typed t.loaded)
    (hopens : c.Opens t.opens) (htakes : c.brings = true → t.takes e) (hrun : e.perform c = .ok e') : I e' := by
  have hleads {α : Type} {x : EditM α} (hx : Leads x e fun _ e' => I e')
      (hrun : e.after x = .ok e') : I e' := by
    obtain ⟨⟨answer, e₁⟩, hr, heq⟩ := bind_eq_ok.mp hrun
    cases heq
    exact hx _ _ hr
  have hkeep {α : Type} {x : EditM α} (hx : EditM.Maintains I x) (hrun : e.after x = .ok e') : I e' :=
    hleads (hx e h) hrun
  have hF := hI.toFramed
  cases c with
  | line storage disk text =>
    obtain ⟨⟨answer, e₁, disk'⟩, hd, heq⟩ := bind_eq_ok.mp hrun
    cases heq
    exact hI.dispatchOn hs h hc.1 hc.2 hd
  | insertBulk place blob => exact hleads (EditM.insertBulk_leads hI (htakes rfl) h place blob) hrun
  | insertDirectory place entries =>
    exact hleads (EditM.insertDirectory_leads hI (htakes rfl) h place hc) hrun
  | updateLine n value => exact hleads (EditM.updateLine_leads hI (htakes rfl) h n value) hrun
  | extractRange start stop => exact hkeep (EditM.maintains_extractRange start stop) hrun
  | fetchLine n => exact hkeep (EditM.maintains_fetchLine n) hrun
  | pushWindow flags =>
    exact hleads ((EditM.pushWindow_leads hF h hopens).mono fun _ _ h' => h'.1) hrun
  | replaceWindow flags =>
    exact hleads ((EditM.replaceWindow_leads hF h hopens).mono fun _ _ h' => h'.1) hrun
  | popWindow => exact hkeep (EditM.maintains_popWindow hF) hrun
  | switchSession n => exact hkeep (EditM.maintains_switchSession hF n) hrun
  | closeSession => exact hkeep (EditM.maintains_closeSession hF) hrun
  | moveSession target => exact hkeep (EditM.maintains_moveSession hF target) hrun
  | interrupt =>
    cases hrun
    exact hI.interrupt h

theorem Kept.performAll (hs : e.Steady) (h : I e) {calls : List Call}
    (hcalls : ∀ c ∈ calls, c.Supplies t.typed t.loaded) (hopens : ∀ c ∈ calls, c.Opens t.opens)
    (htakes : ∀ c ∈ calls, c.brings = true → ∀ e, I e → t.takes e)
    (hrun : e.performAll calls = .ok e') : I e' := by
  -- the engine is steady after each call, which is what the next one asks for
  induction calls generalizing e with
  | nil =>
    cases hrun
    exact h
  | cons c calls ih =>
    obtain ⟨hc, hrest⟩ := List.forall_mem_cons.mp hcalls
    obtain ⟨hco, hresto⟩ := List.forall_mem_cons.mp hopens
    obtain ⟨hct, hrestt⟩ := List.forall_mem_cons.mp htakes
    obtain ⟨e₁, hfirst, hs₁⟩ := hs.perform c
    unfold Engine.performAll at hrun
    rw [hfirst] at hrun
    exact ih hs₁ (hI.perform hs h hc hco (fun hb => hct hb e h) hfirst) hrest hresto hrestt hrun

/-- A property that survives on any terms holds of every engine that can be reached. -/
theorem Kept.reachable (htyped : ∀ text, t.typed text) (hloaded : ∀ l, t.loaded l)
    (hopens : ∀ flags, t.opens flags) (htakes : ∀ e, I e → t.takes e) (hnew : ∀ limits, I (Engine.new limits)) (h : e.Reachable) : I e := by
  induction h with
  | new limits => exact hnew limits
  | call c hr hc ih =>
    exact hI.perform hr.steady ih (c.supplies_any htyped hloaded) (c.opens_any hopens) (fun _ => htakes _ ih) hc

end

end Engine

end LineEditor
