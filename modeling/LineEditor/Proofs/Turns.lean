import LineEditor.Proofs.InPlace
import LineEditor.Proofs.SaveAndLoad

/-!
# What a line can do

All that one line of input can come to: nothing, work in the current window, an undo, a file written,
or a change of sessions and windows, each with what the command had to find for it. What follows of
sessions, warnings and unsaved edits is read off this.
-/

namespace LineEditor

/-- The command is to give up a session, or a window for what stands at a path. -/
inductive Relinquishes : Option Command → List Char → Prop
  | quit (tail : List Char) : Relinquishes (some .quit) tail
  | load {tail : List Char} : Unicode.trim tail ≠ [] → ¬(Unicode.trim tail).all Char.isDigit →
    Relinquishes (some .edit) tail

/-- The current window shows what was loaded. -/
def Loaded.ShownIn (e : Engine) : Loaded → Prop
  | .file bytes => e.Displays bytes
  | .directory _ => e.window.flags.directory = true

def LineRange.spans (range : LineRange) (w : Window) : Bool := range.start ≤ 1 && range.stop = w.dol

namespace Engine

def disarmed (e : Engine) : Engine := { e with quitArmed := false }

/-- The engine after lines of its window were written to a file; `saves` tells whether that was all
of the text, in a file of its own. -/
def written (e : Engine) (path : List Char) (saves : Bool) : Engine :=
  e.setWindow { e.window with
    fileName := e.window.fileName <|> some path
    flags.changed := e.window.flags.changed && !saves }

/-- What a command can come to that is run on the engine `e`. -/
inductive Effect (e : Engine) :
    Option Command → LineRange → List Char → Traffic → Except EditError Report → Engine → Prop
  | refused {cmd range tail x err} : Effect e cmd range tail x (.error err) e
  | worked {cmd range tail x answer e'} : EditM.worksInPlace cmd = true → e.InPlace e' →
    Effect e cmd range tail x answer e'
  | undone {range tail x report r} : e.session.undo.record = some r → r.window = e.window.id →
    Effect e (some .undo) range tail x (.ok report) (e.undone r)
  | wrote {range tail path bytes append count report} :
    (range.spans e.window = true → bytes = e.pool.blob e.window) →
    Effect e (some .write) range tail (.write path bytes append (.ok count)) (.ok report)
      (e.written path (range.spans e.window && !append))
  | told {range tail report} : Effect e (some .edit) range tail .none (.ok report) e
  /-- The first warning of unsaved edits. -/
  | warned {cmd range tail x} : Relinquishes cmd tail → e.quitArmed = false →
    Effect e cmd range tail x (.error .unsavedChanges) { e with quitArmed := true }
  /-- Nothing was unsaved or a warning was given, but there was nothing to load. -/
  | failed {cmd range tail x err} : Effect e cmd range tail x (.error err) e.disarmed
  | quit {range tail x report} : (e.session.hasChanges = true → e.quitArmed = true) →
    Effect e (some .quit) range tail x (.ok report) e.disarmed
  | closed {range tail x report n s p} : (e.session.hasChanges = true → e.quitArmed = true) →
    e.others.get? n = some s → p.Accounts e.others.contents →
    e.pool.Keeps p (e.others.contents.map Prod.fst) →
    Effect e (some .quit) range tail x (.ok report) (e.disarmed.closed n s p)
  | switched {range tail report n s} : e.table.get? n = some s →
    Effect e (some .edit) range tail .none (.ok report) (e.disarmed.makeCurrent n s)
  | started {range tail report n} : 1 ≤ n → n ≤ e.table.max → e.table.get? n = none →
    Effect e (some .edit) range tail .none (.ok report)
      ((e.disarmed.newWindow .none).2.makeCurrent n (.ofWindow (e.newWindow .none).1))
  | moved {range tail x report n} : 1 ≤ n → n ≤ e.table.max → e.table.get? n = none →
    Effect e (some .moveSession) range tail x (.ok report) { e with slot := n }
  | popped {range tail x report undo p w rest} : e.Dropping undo p → e.session.below = w :: rest →
    Effect e (some .back) range tail x (.ok report) (e.popped undo p w rest)
  | replaced {range tail path loaded report undo p e'} :
    (e.window.flags.changed = true → e.quitArmed = true) → e.window.flags.browsing = false →
    Relinquishes (some .edit) tail → e.Dropping undo p →
    (e.disarmed.replaced undo p .none).Confined e' → loaded.ShownIn e' →
    Effect e (some .edit) range tail (.load path (.ok loaded)) (.ok report) e'
  /-- A file is shown on top of a page. -/
  | pushed {range tail path loaded report e'} : e.window.flags.browsing = true →
    (e.pushed .none).Confined e' → loaded.ShownIn e' →
    Effect e (some .edit) range tail (.load path (.ok loaded)) (.ok report) e'

/-- What a line can come to that is typed on the engine `e`. -/
inductive Turns (e : Engine) (line : List Char) :
    Traffic → Except EditError Report → Engine → Prop
  | typed {x answer e'} : e.asks line = none → e.entry.isSome = true → e.InPlace e' →
    Turns e line x answer e'
  | unread {x err} : e.asks line = none → e.entry = none → Turns e line x (.error err) e
  | refused {q x err} (r : Recall) : e.asks line = some q →
    Turns e line x (.error err) ((e.begun q.command).withRecall r)
  | ran {q range x answer e'} (r : Recall) : e.asks line = some q → e.rangeOf q = some range →
    Effect ((e.begun q.command).withRecall r) q.command range q.tail x answer e' →
    Turns e line x answer e'

theorem Held.confined_written {e : Engine} (h : e.Held) (path : List Char) (saves : Bool) :
    e.Confined (e.written path saves) :=
  ⟨⟨h.vacant, h.accounts⟩, rfl, rfl, rfl, rfl, rfl, rfl, rfl, rfl, .refl _ _⟩

theorem Idle.begun {e : Engine} (h : e.Idle) (cmd : Option Command) (r : Recall) :
    ((e.begun cmd).withRecall r).Idle := by
  rw [begun_eq]
  refine ⟨⟨⟨⟨h.vacant, h.accounts⟩, h.consistent, h.below, h.record, h.others, fun t ht => ?_⟩,
    h.unmarked⟩, h.untyped⟩
  have hn : e.entry = some t := ht
  rw [h.untyped] at hn
  cases hn

end Engine

namespace EditM

section
variable {e : Engine}

/-! ## Warnings -/

theorem guardUnsaved_outcome (e : Engine) (changed : Bool) :
    Leads (guardUnsaved changed) e fun answer e' => match answer with
      | .ok _ => (changed = true → e.quitArmed = true) ∧ e' = e.disarmed
      | .error err => err = .unsavedChanges ∧ e.quitArmed = false ∧ e' = { e with quitArmed := true } := by
  unfold guardUnsaved
  rw [leads_get_bind]
  split
  · rename_i hwarn
    rw [Bool.and_eq_true, Bool.not_eq_true'] at hwarn
    rw [leads_modify_bind]
    exact leads_throw.mpr ⟨rfl, hwarn.2, rfl⟩
  · rename_i hpass
    refine leads_modify.mpr ⟨fun hchanged => ?_, rfl⟩
    simpa [hchanged] using hpass

/-! ## Files -/

theorem noteWritten_outcome (path : List Char) (range : LineRange) (append : Bool) (count : Nat) :
    Leads (noteWritten path range append count) e
      (.sure fun _ e' => e' = e.written path (range.spans e.window && !append)) := by
  unfold noteWritten rememberFile
  rw [leads_get_bind, leads_modifyWindow_bind]
  dsimp only
  split
  · rename_i hsaves
    rw [leads_modifyWindow_bind]
    refine leads_pure.mpr (show _ = _ from ?_)
    rw [show (range.spans e.window && !append) = true from hsaves]
    simp [Engine.written, Engine.setWindow, Engine.window]
  · rename_i hpart
    refine leads_pure.mpr (show _ = _ from ?_)
    have hfalse : (range.spans e.window && !append) = false := by
      rw [← Bool.not_eq_true]
      exact hpart
    rw [hfalse]
    simp [Engine.written, Engine.setWindow, Engine.window]

/-- A range that spans the window gives all of its text. -/
theorem extractRange_spans (h : e.Sound) (range : LineRange) :
    Leads (extractRange range.start range.stop) e fun answer e' => e' = e ∧
      ∀ bytes, answer = .ok bytes → range.spans e.window = true → bytes = e.pool.blob e.window := by
  intro answer e' hrun
  refine ⟨((extractRange_ends h _ _).leads answer e' hrun).1, fun bytes hbytes hspans => ?_⟩
  subst hbytes
  obtain ⟨start, stop, given⟩ := range
  simp only [LineRange.spans, Bool.and_eq_true, decide_eq_true_eq] at hspans
  obtain ⟨hstart, rfl⟩ := hspans
  by_cases hfirst : e.window.dol ≠ 0 → start = 1
  · have hwhole := extractRange_whole h.readable hstart hfirst
    cases hwhole.symm.trans hrun
    rfl
  · -- line 0 is refused where there are lines
    obtain ⟨hdol, hne⟩ := Classical.not_imp.mp hfirst
    have hcheck : e.view.checkRun start e.window.dol = .error (.lineOutOfRange 0) := by
      have hdol' : e.view.window.dol ≠ 0 := hdol
      unfold View.checkRun
      dsimp only
      rw [if_neg hdol', if_pos (by omega)]
      rfl
    have hrefused : Leads (extractRange start e.window.dol) e fun answer _ => answer ≠ .ok bytes := by
      unfold extractRange
      rw [leads_get_bind, leads_bind, leads_liftExcept, hcheck]
      exact fun heq => by cases heq
    exact absurd rfl (hrefused _ _ hrun)

/-- Whatever is loaded is shown in the window opened for it, or there is no room for it. -/
theorem showLoaded_fills (h : e.Steady) (path : List Char) (onTop : Bool) (loaded : Loaded) :
    Ends (showLoaded path onTop loaded) e (orStays e fun _ e' => loaded.ShownIn e') := by
  cases loaded with
  | file bytes =>
    by_cases hsize : Blob.countLines bytes ≤ e.limits.lines
    · refine (showLoaded_file h path onTop hsize).mono fun answer e' hp => ?_
      cases answer with
      | ok report => exact hp
      | error err => exact hp.elim
    · unfold showLoaded
      rw [ends_get_bind]
      dsimp only
      rw [if_pos (Nat.lt_of_not_le hsize)]
      exact ends_throw.mpr rfl
  | directory entries =>
    unfold showLoaded
    rw [ends_get_bind]
    dsimp only
    split
    · exact ends_throw.mpr rfl
    · rename_i hsize
      refine openWindow_ends h onTop fun e₁ h₁ _ => ?_
      have hfit : e₁.window.dol + entries.length ≤ e₁.limits.lines := by
        rw [h₁.dol_eq, h₁.limits_eq]
        omega
      have hput := Enters.sure ⟨Nat.zero_le _, hfit⟩ (insertDirectory_ends h₁.toSound 0 entries)
      have hlisted := insertDirectory_receives h₁.toHeld 0 entries
      refine (hput.and hlisted).then ?_ fun _ _ hp => hp.1.elim
      rintro size e₂ ⟨-, -, -, hflags⟩
      rw [ends_modifyWindow_bind, ends_pure]
      show e₂.window.flags.directory = true
      rw [hflags]
      rfl

/-- The window opened for what is loaded takes the place of the current one or stands on top of it,
and only it is filled. -/
def Opens (e : Engine) (onTop : Bool) (e' : Engine) : Prop :=
  if onTop then (e.pushed .none).Confined e'
  else ∃ undo p, e.Dropping undo p ∧ (e.replaced undo p .none).Confined e'

/-- The name comes last, when the window is filled. -/
theorem nameWindow_confined {e' : Engine} (h : e.Confined e') (path : List Char) (size : Nat) :
    Leads (do
      modifyWindow fun w => { w with fileName := some path }
      return Report.ofSwitch [toString size]) e' fun _ e'' => e.Confined e'' := by
  have hnamed : e'.InPlace (e'.setWindow { e'.window with fileName := some path }) :=
    h.toHeld.inPlace_same rfl rfl rfl
  rw [leads_modifyWindow_bind]
  exact leads_pure.mpr (h.trans hnamed.toConfined)

theorem showLoaded_opens (h : e.Held) (path : List Char) (onTop : Bool) (loaded : Loaded) :
    Leads (showLoaded path onTop loaded) e fun answer e' =>
      ∀ report, answer = .ok report → Opens e onTop e' := by
  have hopen {f : EditM Report} (hf : ∀ e₁, e₁.Held → Leads f e₁ fun _ e₂ => e₁.Confined e₂) :
      Leads (if onTop then (do let _ ← pushWindow .none; f)
        else (do let _ ← replaceWindow .none; f)) e fun answer e' =>
          ∀ report, answer = .ok report → Opens e onTop e' := by
    unfold Opens
    cases onTop with
    | true =>
      refine (pushWindow_outcome e .none).then ?_ fun _ _ hp => hp.elim
      rintro _ _ rfl
      exact (hf _ (h.push .none)).mono fun _ _ hc _ _ => hc
    | false =>
      refine (replaceWindow_outcome h .none).then ?_ fun _ _ hp => hp.elim
      rintro _ _ ⟨undo, p, hd, rfl⟩
      exact (hf _ (h.replace hd.accounts .none)).mono fun _ _ hc _ _ => ⟨undo, p, hd, hc⟩
  have hstay {α : Type} {P : α → Engine → Prop} {x : EditM α} {e₁ : Engine} (h₁ : e₁.Held)
      (hx : Leads x e₁ (orStays e₁ P)) (hP : ∀ a e₂, P a e₂ → e₁.Confined e₂) :
      Leads x e₁ fun _ e₂ => e₁.Confined e₂ :=
    hx.maintains (I := e₁.Confined) (Engine.InPlace.refl h₁).toConfined hP
  unfold showLoaded
  rw [leads_get_bind]
  cases loaded with
  | file bytes =>
    dsimp only
    split
    · exact leads_throw.mpr fun _ heq => by cases heq
    · refine hopen fun e₁ h₁ => ?_
      have hput := hstay h₁ (insertBulk_receives h₁ 0 bytes) fun _ _ hp => hp.2.1.confined h₁
      exact hput.then (fun _ _ hc => nameWindow_confined hc path _) fun _ _ hc => hc
  | directory entries =>
    dsimp only
    split
    · exact leads_throw.mpr fun _ heq => by cases heq
    · refine hopen fun e₁ h₁ => ?_
      have hput := hstay h₁ (insertDirectory_receives h₁ 0 entries) fun _ _ hp => hp.2.1.confined h₁
      exact hput.then (fun size _ hc => nameWindow_confined hc path size) fun _ _ hc => hc

/-! ## Commands -/

theorem runUndo_effect (range : LineRange) (tail : List Char) :
    Leads (runUndo tail) e (e.Effect (some .undo) range tail .none) := by
  unfold runUndo
  refine leads_reads (noTail_reads _ tail) (fun _ _ => ?_) fun _ => .refused
  refine (undo_outcome e).then ?_ fun err e' heq => ?_
  · rintro _ _ ⟨r, hr, hid, rfl⟩
    exact leads_pure.mpr (.undone hr hid)
  · rw [show e' = e from heq]
    exact .refused

theorem runBack_effect (h : e.Held) (range : LineRange) (tail : List Char) :
    Leads (runBack tail) e (e.Effect (some .back) range tail .none) := by
  unfold runBack
  refine leads_reads (noTail_reads _ tail) (fun _ _ => ?_) fun _ => .refused
  refine (popWindow_outcome h).then ?_ fun err e' heq => ?_
  · rintro _ _ ⟨undo, p, w, rest, hd, hb, rfl⟩
    exact leads_pure.mpr (.popped hd hb)
  · rw [show e' = e from heq]
    exact .refused

theorem runMoveSession_effect (range : LineRange) (tail : List Char) :
    Leads (runMoveSession tail) e (e.Effect (some .moveSession) range tail .none) := by
  unfold runMoveSession
  refine leads_reads (slotArgument_reads tail) (fun slot _ => ?_) fun _ => .refused
  refine (moveSession_outcome e slot).then ?_ fun err e' heq => ?_
  · rintro n _ ⟨h₁, hn, hs, rfl⟩
    exact leads_pure.mpr (.moved h₁ hn hs)
  · rw [show e' = e from heq]
    exact .refused

theorem runQuit_effect (h : e.Held) (range : LineRange) (tail : List Char) :
    Leads (runQuit tail) e (e.Effect (some .quit) range tail .none) := by
  unfold runQuit
  refine leads_reads (noTail_reads _ tail) (fun _ _ => ?_) fun _ => .refused
  rw [leads_get_bind]
  refine (guardUnsaved_outcome e _).then ?_ ?_
  · rintro _ _ ⟨hguard, rfl⟩
    have hd : e.disarmed.Held := ⟨h.vacant, h.accounts⟩
    refine (closeSession_outcome hd).then (fun slot e' hclosed => ?_) fun err e' heq => ?_
    · cases slot with
      | none =>
        obtain ⟨-, rfl⟩ := hclosed
        exact leads_pure.mpr (.quit hguard)
      | some n =>
        obtain ⟨s, p, hs, ha, hk, rfl⟩ := hclosed
        exact leads_pure.mpr (.closed hguard hs ha hk)
    · rw [show e' = e.disarmed from heq]
      exact .failed
  · rintro _ _ ⟨rfl, hcalm, rfl⟩
    exact .warned (.quit tail) hcalm

theorem editSession_effect (range : LineRange) (tail digits : List Char) :
    Leads (editSession digits) e (e.Effect (some .edit) range tail .none) := by
  unfold editSession
  refine leads_reads (sessionNumber_reads digits) (fun n _ => ?_) fun _ => .refused
  refine (switchSession_outcome e n).then (fun created e' hswitched => ?_) fun err e' heq => ?_
  · rw [leads_modify_bind]
    have heff (report : Report) : e.Effect (some .edit) range tail .none (.ok report)
        { e' with quitArmed := false } := by
      rcases hswitched with ⟨s, hs, rfl⟩ | ⟨h₁, hn, hs, rfl⟩
      · exact .switched hs
      · exact .started h₁ hn hs
    -- what is said of the session that is current now does not change it
    cases created with
    | true => exact leads_pure.mpr (heff _)
    | false =>
      dsimp only
      rw [if_neg (by simp), leads_get_bind]
      split
      · exact leads_pure.mpr (heff _)
      · exact leads_pure.mpr (heff _)
  · rw [show e' = e from heq]
    exact .refused

theorem runEdit_effect (h : e.Idle) (range : LineRange) (tail : List Char) :
    Leads (runEdit tail) e (Engine.Brings (e.Effect (some .edit) range tail)) := by
  -- the window shows what was loaded, or nothing was done after the warning
  have hload {e' : Engine} (h' : e'.Steady) (path : List Char) (onTop : Bool)
      (hrefused : ∀ x err, e.Effect (some .edit) range tail x (.error err) e')
      (hopened : ∀ loaded report e'', Opens e' onTop e'' → loaded.ShownIn e'' →
        e.Effect (some .edit) range tail (.load path (.ok loaded)) (.ok report) e'')
      (answer : Except String Loaded) : Leads (do
        showLoaded path onTop (← liftExcept (ofStorage path answer))) e'
        (e.Effect (some .edit) range tail (.load path answer)) := by
    cases answer with
    | error text => exact leads_throw.mpr (hrefused _ _)
    | ok loaded =>
      refine ((showLoaded_fills h' path onTop loaded).leads.and
        (showLoaded_opens h'.toHeld path onTop loaded)).mono fun answer e'' hp => ?_
      cases answer with
      | ok report => exact hopened loaded report e'' (hp.2 report rfl) hp.1
      | error err =>
        rw [show e'' = e' from hp.1]
        exact hrefused _ _
  unfold runEdit
  dsimp only
  split
  · rw [leads_get_bind]
    exact leads_pure.mpr .told
  · rename_i hsome
    split
    · exact leads_done (editSession_effect range tail _)
    · rename_i hpath
      have hrel : Relinquishes (some .edit) tail := .load (by simpa using hsome) hpath
      rw [leads_get_bind]
      cases hb : e.window.flags.browsing with
      | true =>
        refine leads_pure.mpr fun answer => hload h.toSteady _ _ (fun _ _ => .refused) ?_ answer
        exact fun loaded report e'' ho hshown => .pushed hb ho hshown
      | false =>
        rw [if_pos (by rfl)]
        refine (guardUnsaved_outcome e _).then ?_ ?_
        · rintro _ _ ⟨hguard, rfl⟩
          have hcalm : e.disarmed.Idle := (e.unaltered_armed false).idle h
          refine leads_pure.mpr fun answer => hload hcalm.toSteady _ _ (fun _ _ => .failed) ?_ answer
          rintro loaded report e'' ⟨undo, p, hd, hc⟩ hshown
          exact .replaced hguard hb hrel ⟨hd.record, hd.accounts, hd.keeps⟩ hc hshown
        · rintro _ _ ⟨rfl, hcalm, rfl⟩
          exact .warned hrel hcalm

theorem runWrite_effect (h : e.Sound) (range : LineRange) (tail : List Char) :
    Leads (runWrite range tail) e (Engine.Brings (e.Effect (some .write) range tail)) := by
  have hwrite (append : Bool) (rest : List Char) : Leads (do
      let path ← targetFile rest
      let bytes ← extractRange range.start range.stop
      return Progress.write path bytes append fun answer => do
        noteWritten path range append (← liftExcept (ofStorage path answer))) e
      (Engine.Brings (e.Effect (some .write) range tail)) := by
    refine (targetFile_ends rest).leads.then ?_ ?_
    · rintro path _ ⟨rfl, -⟩
      refine (extractRange_spans h range).then ?_ ?_
      · rintro bytes _ ⟨rfl, hbytes⟩
        refine leads_pure.mpr fun answer => ?_
        cases answer with
        | error text => exact leads_throw.mpr .refused
        | ok count =>
          refine (noteWritten_outcome path range append count).mono fun answer e' hp => ?_
          cases answer with
          | ok report =>
            rw [show e' = _ from hp]
            exact .wrote (hbytes bytes rfl)
          | error err => exact hp.elim
      · rintro err _ ⟨rfl, -⟩
        exact .refused
    · rintro err _ ⟨rfl, -⟩
      exact .refused
  unfold runWrite
  dsimp only
  exact hwrite _ _

theorem runCommand_effect (h : e.Idle) {cmd : Option Command} {range : LineRange}
    (hall : cmd.all e.window.mode.allows = true) (hr : range.Within e.window.dol)
    (hz : 0 < range.start ∨ cmd.any Command.allowsZero) (tail : List Char) :
    Leads (runCommand cmd range tail) e (Engine.Brings (e.Effect cmd range tail)) := by
  by_cases hcmd : worksInPlace cmd = true
  · refine (runInPlace_arrives (Engine.sustained_inPlace e) (.refl h.toHeld) hcmd hall hr hz tail
      fun _ => True).mono fun answer e₁ harrives => ?_
    refine Engine.Brings.mono harrives fun x _ _ hin => .worked hcmd (hin ?_)
    cases x with
    | load path answer => cases answer <;> exact trivial
    | _ => exact trivial
  · unfold runCommand
    cases cmd with
    | none => exact absurd rfl hcmd
    | some cmd =>
      cases cmd with
      | undo => exact leads_done (runUndo_effect range tail)
      | edit => exact runEdit_effect h range tail
      | quit => exact leads_done (runQuit_effect h.toHeld range tail)
      | back => exact leads_done (runBack_effect h.toHeld range tail)
      | moveSession => exact leads_done (runMoveSession_effect range tail)
      | write => exact runWrite_effect h.toSound range tail
      | _ => exact absurd rfl hcmd

theorem dispatch_turns (h : e.Steady) (line : List Char) :
    Leads (dispatch line) e (Engine.Brings (e.Turns line)) := by
  unfold dispatch
  rw [leads_get_bind]
  split
  · rename_i t ht
    have hasks : e.asks line = none := by
      unfold Engine.asks
      rw [ht]
      rfl
    refine leads_done ((typeLine_leads (Engine.sustained_inPlace e) h (.refl h.toHeld) ht trivial).mono
      fun _ _ hin => .typed hasks ?_ hin)
    rw [ht]
    rfl
  · rename_i hn
    have hasks : e.asks line = (Request.read (withoutNewline line)).toOption := by
      unfold Engine.asks
      rw [hn]
      rfl
    refine execute_leads (fun err herr => ?_) (fun q hq err r => ?_) fun q hq range hrange hall r => ?_
    · refine .unread ?_ hn
      rw [hasks, herr]
      rfl
    · refine .refused r ?_
      rw [hasks, hq]
      rfl
    · obtain ⟨hr, hz⟩ := Engine.rangeOf_within h.toHeld.readable hrange
      have hidle := (Engine.Idle.mk h hn).begun q.command r
      rw [hq] at hasks
      have hwindow : ((e.begun q.command).withRecall r).window.mode = e.window.mode ∧
          ((e.begun q.command).withRecall r).window.dol = e.window.dol := by
        rw [Engine.begun_eq]
        exact ⟨rfl, rfl⟩
      refine (runCommand_effect hidle (hwindow.1 ▸ hall) (hwindow.2 ▸ hr) hz q.tail).mono
        fun answer e₁ hb => Engine.Brings.mono hb fun x answer e₂ heff => .ran r hasks hrange heff

end

end EditM

namespace Engine

theorem dispatchOn_turns {e e' : Engine} (h : e.Steady) {storage : Storage σ} {disk disk' : σ}
    {line : List Char} {answer : Except EditError Report}
    (hrun : e.dispatchOn storage line disk = .ok (answer, e', disk')) :
    e.Turns line (e.traffic storage line disk) answer e' :=
  dispatchOn_brings (EditM.dispatch_turns h line) hrun

end Engine

/-! ## Histories -/

/-- One line of input, with the file system it met and what came of it. -/
structure Turn : Type 1 where
  {σ : Type}
  storage : Storage σ
  disk : σ
  before : Engine
  line : List Char
  answer : Except EditError Report
  after : Engine

namespace Turn

/-- The line was indeed dispatched. -/
def Ran (t : Turn) : Prop :=
  ∃ disk', t.before.dispatchOn t.storage t.line t.disk = .ok (t.answer, t.after, disk')

def request (t : Turn) : Option Request := t.before.asks t.line

def traffic (t : Turn) : Traffic := t.before.traffic t.storage t.line t.disk

theorem Ran.turns {t : Turn} (h : t.Ran) (hs : t.before.Steady) :
    t.before.Turns t.line t.traffic t.answer t.after := by
  obtain ⟨disk', hrun⟩ := h
  exact Engine.dispatchOn_turns hs hrun

end Turn

theorem Engine.Reachable.dispatch {e e' : Engine} (h : e.Reachable) {storage : Storage σ}
    {disk disk' : σ} {line : List Char} {answer : Except EditError Report}
    (hrun : e.dispatchOn storage line disk = .ok (answer, e', disk')) : e'.Reachable := by
  refine .call (.line storage disk line) h ?_
  show (do return (← e.dispatchOn storage line disk).2.1) = _
  rw [hrun]
  rfl

/-- The engines that lines of input lead to from a new one, with all that was typed, the last line
first. Stops may be requested between the lines. -/
inductive History : List Turn → Engine → Prop
  | new (limits : Limits) : History [] (Engine.new limits)
  | interrupt {turns : List Turn} {e : Engine} : History turns e → History turns e.interrupt
  | line {turns : List Turn} (t : Turn) : History turns t.before → t.Ran → History (t :: turns) t.after

namespace History

theorem reachable {turns : List Turn} {e : Engine} (h : History turns e) : e.Reachable := by
  induction h with
  | new limits => exact .new limits
  | interrupt _ ih => exact .call .interrupt ih rfl
  | line t _ hran ih =>
    obtain ⟨disk', hrun⟩ := hran
    exact ih.dispatch hrun

/-- Each line met the engine that the lines before it had left. -/
theorem before_of_suffix {turns earlier : List Turn} {e : Engine} {t : Turn} (h : History turns e)
    (hsuffix : t :: earlier <:+ turns) : History earlier t.before ∧ t.Ran := by
  -- on the history; the suffix ends at the newest line or lies in the rest
  induction h with
  | new limits => cases List.suffix_nil.mp hsuffix
  | interrupt _ ih => exact ih hsuffix
  | line u hbefore hran ih =>
    rcases List.suffix_cons_iff.mp hsuffix with heq | hrest
    · obtain ⟨rfl, rfl⟩ := List.cons.inj heq
      exact ⟨hbefore, hran⟩
    · exact ih hrest

end History

end LineEditor
