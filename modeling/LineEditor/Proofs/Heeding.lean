import LineEditor.Proofs.Requests

/-!
# Requests to stop

A request to stop is looked for at a few places in a command, and what finds it refuses the command
with an error of its own. Everything else leaves the request as it is and refuses for reasons of its
own, so whatever a command does up to its end, the request was heeded and is done with, or it still
stands.
-/

namespace LineEditor

/-- Whether a request to stop brought the error about, be it within a global command. -/
def EditError.isStop : EditError → Bool
  | interrupted => true
  | partialGlobalFailure cause _ => cause.isStop
  | _ => false

theorem EditError.isStop_of_isPlain {err : EditError} (h : err.isPlain = true) :
    err.isStop = false := by
  cases err with
  | interrupted => cases h
  | partialGlobalFailure cause last => cases h
  | _ => rfl

/-- What becomes of a request to stop, where `raised` tells whether there is one: the error says that
it was heeded, and it is done with; or nobody was stopped, and it is as it was. -/
def Heeds (raised : σ → Bool) (s : σ) : Post σ α
  | .ok _, s' => raised s' = raised s
  | .error err, s' => (err = .interrupted ∧ raised s = true ∧ raised s' = false) ∨
      (err.isStop = false ∧ raised s' = raised s)

/-- Wherever the action is run, a request to stop is heeded or stands. -/
def Heedful (raised : σ → Bool) (x : ExceptT EditError (StateT σ (Except Breach)) α) : Prop :=
  ∀ s, Leads x s (Heeds raised s)

section
variable {raised : σ → Bool} {s : σ}

theorem Heeds.plain {err : EditError} (h : err.isPlain = true) :
    Heeds raised s (.error err : Except EditError α) s :=
  .inr ⟨EditError.isStop_of_isPlain h, rfl⟩

/-- What was done before left the request as it was. -/
theorem Heeds.before {s' s'' : σ} {answer : Except EditError α} (h : Heeds raised s' answer s'')
    (hs : raised s' = raised s) : Heeds raised s answer s'' := by
  unfold Heeds at *
  rwa [hs] at h

theorem heeds_reads {y : Except EditError β} {P : β → Prop} (hy : Reads y P)
    {f : β → ExceptT EditError (StateT σ (Except Breach)) α}
    (hok : ∀ a, Leads (f a) s (Heeds raised s)) :
    Leads (liftExcept y >>= f) s (Heeds raised s) := by
  rw [leads_bind, leads_liftExcept]
  cases y with
  | ok a => exact hok a
  | error err => exact Heeds.plain (α := α) hy

theorem heeds_lift {y : Except Breach β} {f : β → ExceptT EditError (StateT σ (Except Breach)) α}
    (hok : ∀ a, Leads (f a) s (Heeds raised s)) :
    Leads (liftM y >>= f) s (Heeds raised s) :=
  leads_bind.mpr (leads_lift.mpr fun a _ => hok a)

namespace Heedful

protected theorem pure (a : α) : Heedful raised (pure a) := fun _ => leads_pure.mpr rfl

protected theorem throw {err : EditError} (h : err.isPlain = true) :
    Heedful raised (throw err : ExceptT EditError (StateT σ (Except Breach)) α) :=
  fun _ => leads_throw.mpr (.plain h)

protected theorem liftExcept {y : Except EditError α} {P : α → Prop} (hy : Reads y P) :
    Heedful raised (liftExcept y) := by
  intro s
  rw [leads_liftExcept]
  cases y with
  | ok a => rfl
  | error err => exact .plain hy

protected theorem lift (y : Except Breach α) :
    Heedful raised (liftM y : ExceptT EditError (StateT σ (Except Breach)) α) :=
  fun _ => leads_lift.mpr fun _ _ => rfl

protected theorem get : Heedful raised get := by
  rintro s _ _ ⟨⟩
  rfl

protected theorem modify {f : σ → σ} (hf : ∀ s, raised (f s) = raised s) :
    Heedful raised (modify f) :=
  fun s => leads_modify.mpr (hf s)

protected theorem bind {x : ExceptT EditError (StateT σ (Except Breach)) α}
    {f : α → ExceptT EditError (StateT σ (Except Breach)) β} (hx : Heedful raised x)
    (hf : ∀ a, Heedful raised (f a)) : Heedful raised (x >>= f) :=
  fun s => (hx s).then (fun a s' hs => (hf a s').mono fun _ _ h => h.before hs) fun _ _ h => h

/-- For actions that change the state which they look at. -/
theorem get_bind {f : σ → ExceptT EditError (StateT σ (Except Breach)) α}
    (hf : ∀ s, Leads (f s) s (Heeds raised s)) : Heedful raised (get >>= f) :=
  fun s => leads_get_bind.mpr (hf s)

end Heedful

end

/-! ## Looking around -/

namespace Query

theorem heedful_checkInterrupt : Heedful Recall.interrupted checkInterrupt := by
  unfold checkInterrupt
  refine .get_bind fun r => ?_
  split
  · rename_i hr
    exact leads_modify_bind.mpr (leads_throw.mpr (.inl ⟨rfl, hr, rfl⟩))
  · exact leads_pure.mpr rfl

theorem heedful_resolve (body : List Char) : Heedful Recall.interrupted (resolve body) := by
  unfold resolve
  exact .bind .get fun r => .liftExcept (resolveSearch_reads _ _)

theorem heedful_remember (source : List Char) : Heedful Recall.interrupted (remember source) :=
  .modify fun _ => rfl

end Query

namespace View

section
variable (v : View)

theorem heedful_searchFrom (dot : Nat) (forward : Bool) (matcher : Matcher) (count n : Nat) :
    Heedful Recall.interrupted (v.searchFrom dot forward matcher count n) := by
  induction count generalizing n with
  | zero => exact .throw rfl
  | succ count ih =>
    unfold searchFrom
    refine Query.heedful_checkInterrupt.bind fun _ => (Heedful.lift _).bind fun n => ?_
    split
    · exact .throw rfl
    · refine (Heedful.lift _).bind fun shown => ?_
      split
      · split
        · exact .pure _
        · exact ih n
      · exact ih n

theorem heedful_search (dot : Nat) (forward : Bool) (body : List Char) :
    Heedful Recall.interrupted (v.search dot forward body) := by
  unfold search
  refine (Query.heedful_resolve body).bind fun source => ?_
  refine (Heedful.liftExcept (v.window.compile_reads source false)).bind fun matcher => ?_
  exact (Query.heedful_remember source).bind fun _ => v.heedful_searchFrom dot forward matcher _ _

theorem heedful_base (dot : Nat) (b : Base) : Heedful Recall.interrupted (v.base dot b) := by
  unfold base
  split
  · exact .pure _
  · exact .pure _
  · exact .pure _
  · split
    · exact .pure _
    · exact .throw rfl
  · exact v.heedful_search dot true _
  · exact v.heedful_search dot false _

theorem heedful_address (dot : Nat) (a : Address) :
    Heedful Recall.interrupted (v.address dot a) := by
  unfold address
  refine (v.heedful_base dot a.base).bind fun n => ?_
  dsimp only
  split
  · exact .throw rfl
  · split
    · exact .throw rfl
    · exact .pure _

theorem heedful_ordered (start stop given : Nat) :
    Heedful Recall.interrupted (ordered start stop given) := by
  unfold ordered
  split
  · exact .throw rfl
  · exact .pure _

theorem heedful_range (expr : RangeExpr) : Heedful Recall.interrupted (v.range expr) := by
  cases expr with
  | default => exact .pure _
  | whole => exact heedful_ordered _ _ _
  | dotToEnd => exact heedful_ordered _ _ _
  | one a => exact (v.heedful_address _ a).bind fun n => heedful_ordered n n 1
  | two first second fromFirst =>
    exact (v.heedful_address _ first).bind fun start =>
      (v.heedful_address _ second).bind fun stop => heedful_ordered start stop 2

theorem heedful_locate (inGlobal : Bool) (cmd : Option Command) (expr : RangeExpr) :
    Heedful Recall.interrupted (v.locate inGlobal cmd expr) := by
  unfold locate
  refine (v.heedful_range expr).bind fun given => ?_
  refine (Heedful.liftExcept (effectiveRange_reads inGlobal cmd given)).bind fun range => ?_
  exact (Heedful.liftExcept (checkZero_reads cmd range.start)).bind fun _ => .pure _

/-! ## Plans -/

theorem heedful_planGoto (n : Nat) (print : Option PrintStyle) :
    Heedful Recall.interrupted (v.planGoto n print) := by
  unfold planGoto
  cases print with
  | none => exact .pure _
  | some style => exact (Heedful.lift _).bind fun _ => .pure _

theorem heedful_planPrint (style : PrintStyle) (range : LineRange) (tail : List Char) :
    Heedful Recall.interrupted (v.planPrint style range tail) := by
  unfold planPrint
  refine (Heedful.liftExcept (noTail_reads _ tail)).bind fun _ => (Heedful.lift _).bind fun _ => ?_
  exact Query.heedful_checkInterrupt.bind fun _ => (Heedful.lift _).bind fun _ => .pure _

theorem heedful_planJoin (spaced : Bool) (range : LineRange) (tail : List Char) :
    Heedful Recall.interrupted (v.planJoin spaced range tail) := by
  unfold planJoin
  refine (Heedful.liftExcept (printSuffix_reads _ tail)).bind fun print => ?_
  split
  · exact v.heedful_planGoto _ _
  · refine (Heedful.lift _).bind fun texts => ?_
    generalize List.intercalate _ texts = joined
    dsimp only
    split
    · exact .throw rfl
    · exact .pure _

theorem heedful_destination (c : LineCommand) (tail : List Char) :
    Heedful Recall.interrupted (v.destination c tail) := by
  unfold destination
  rw [Address.lift_read]
  refine (Heedful.liftExcept (Address.parse_reads _)).bind fun found => ?_
  cases found with
  | none => exact .throw rfl
  | some found =>
    refine (Heedful.liftExcept (printSuffix_reads _ _)).bind fun print => ?_
    exact (v.heedful_address _ _).bind fun n => .pure _

theorem heedful_planMove (range : LineRange) (tail : List Char) :
    Heedful Recall.interrupted (v.planMove range tail) := by
  unfold planMove
  refine (v.heedful_destination .move tail).bind fun d => ?_
  dsimp only
  split
  · exact .throw rfl
  · split
    · exact v.heedful_planGoto _ _
    · exact .pure _

theorem heedful_planCopy (range : LineRange) (tail : List Char) :
    Heedful Recall.interrupted (v.planCopy range tail) := by
  unfold planCopy
  refine (v.heedful_destination .copy tail).bind fun d => (Heedful.lift _).bind fun _ => ?_
  exact (Heedful.liftExcept (v.checkCapacity_reads _)).bind fun _ => .pure _

theorem heedful_planLabel (range : LineRange) (tail : List Char) :
    Heedful Recall.interrupted (planLabel range tail) := by
  unfold planLabel
  split
  · exact .throw rfl
  · split
    · exact .pure _
    · exact .throw rfl
  · exact .throw rfl

theorem heedful_resolveTemplate (body : List Char) :
    Heedful Recall.interrupted (SubstituteRequest.resolveTemplate body) := by
  unfold SubstituteRequest.resolveTemplate
  split
  · refine .bind .get fun r => ?_
    split
    · exact .pure _
    · exact .throw rfl
  · exact .pure _

theorem heedful_parse (tail : List Char) :
    Heedful Recall.interrupted (SubstituteRequest.parse v tail) := by
  unfold SubstituteRequest.parse
  simp only [Delimited.lift_readFirst, Delimited.read_bind]
  refine (Heedful.liftExcept (Delimited.first_reads tail)).bind fun d => ?_
  split
  · exact .throw rfl
  · refine (Heedful.liftExcept (SubstituteRequest.flags_reads _)).bind fun flags => ?_
    refine (Query.heedful_resolve _).bind fun source => ?_
    refine (heedful_resolveTemplate _).bind fun template => ?_
    refine (Heedful.liftExcept (v.window.compile_reads _ _)).bind fun matcher => ?_
    split
    · exact .throw rfl
    · refine (Heedful.modify ?_).bind fun _ => .pure _
      exact fun _ => rfl

theorem heedful_reviseAll (request : SubstituteRequest) (limit : Nat)
    (lines : List (Nat × Bytes)) :
    Heedful Recall.interrupted (request.reviseAll limit lines) := by
  -- on the lines to be revised
  induction lines with
  | nil => exact .pure _
  | cons line lines ih =>
    have hrevise : Heedful Recall.interrupted (request.revise limit line.2) := by
      rw [SubstituteRequest.revise_eq]
      refine (Heedful.lift _).bind fun outcome => ?_
      split
      · exact .pure _
      · exact .throw rfl
      · split
        · exact .pure _
        · exact .throw rfl
    unfold SubstituteRequest.reviseAll
    refine hrevise.bind fun new => ih.bind fun changes => ?_
    split <;> exact .pure _

theorem heedful_planSubstitute (range : LineRange) (tail : List Char) :
    Heedful Recall.interrupted (v.planSubstitute range tail) := by
  unfold planSubstitute
  refine (v.heedful_parse tail).bind fun request => Query.heedful_checkInterrupt.bind fun _ => ?_
  refine (Heedful.lift _).bind fun texts => (heedful_reviseAll request _ _).bind fun changes => ?_
  split
  · exact .throw rfl
  · refine (Heedful.lift _).bind fun extra => ?_
    exact (Heedful.liftExcept (v.checkCapacity_reads _)).bind fun _ => .pure _

theorem heedful_plan (cmd : Option LineCommand) (range : LineRange) (tail : List Char) :
    Heedful Recall.interrupted (v.plan cmd range tail) := by
  unfold plan
  split
  · exact v.heedful_planGoto _ _
  · exact v.heedful_planPrint _ range tail
  · exact (Heedful.liftExcept (noTail_reads _ tail)).bind fun _ => .pure _
  · exact (Heedful.liftExcept (printSuffix_reads _ tail)).bind fun _ => .pure _
  · exact v.heedful_planJoin _ range tail
  · exact v.heedful_planMove range tail
  · exact v.heedful_planCopy range tail
  · exact heedful_planLabel range tail
  · exact v.heedful_planSubstitute range tail

end

end View

/-! ## Operations -/

namespace EditM

theorem heedful_query {q : View → Query α} (hq : ∀ v, Heedful Recall.interrupted (q v)) :
    Heedful Engine.interrupted (query q) := by
  intro e
  refine leads_query.mpr ((hq e.view e.remembered).mono fun answer r h => ?_)
  cases answer with
  | ok a => exact h
  | error err => exact h

theorem heedful_modifyWindow (f : Window → Window) :
    Heedful Engine.interrupted (modifyWindow f) :=
  .modify fun _ => rfl

theorem heedful_onWindow (f : Window → Pool → Except Breach (Window × Pool)) :
    Heedful Engine.interrupted (onWindow f) := by
  unfold onWindow
  exact .get_bind fun e => heeds_lift fun r => leads_set.mpr rfl

theorem heedful_snapshot : Heedful Engine.interrupted snapshot := by
  unfold snapshot
  exact .get_bind fun e => heeds_lift fun r => leads_set.mpr rfl

theorem heedful_undo : Heedful Engine.interrupted undo := by
  unfold undo
  refine .get_bind fun e => ?_
  split
  · exact leads_set.mpr rfl
  · exact leads_throw.mpr (.plain rfl)

theorem heedful_checkCapacity (adding : Nat) :
    Heedful Engine.interrupted (checkCapacity adding) := by
  unfold checkCapacity
  exact .bind .get fun e => .liftExcept (e.view.checkCapacity_reads adding)

theorem heedful_insertBulk (place : Nat) (blob : Bytes) :
    Heedful Engine.interrupted (insertBulk place blob) := by
  unfold insertBulk
  simp only [Blob.read_bind]
  refine .bind .get fun e => (Heedful.liftExcept (e.view.checkPlace_reads place)).bind fun _ => ?_
  refine (Heedful.liftExcept (e.view.checkCapacity_reads _)).bind fun _ => ?_
  have hlines : Heedful Engine.interrupted (do
      onWindow fun w p => w.insertLines p place (Blob.split blob).lines
      if place = e.view.window.dol && !(Blob.split blob).lines.isEmpty &&
          !(Blob.split blob).finalNewline then
        modifyWindow fun w => { w with flags.noFinalNewline := true }
      return (Blob.split blob).lines.length) := by
    refine (heedful_onWindow _).bind fun _ => ?_
    split
    · exact (heedful_modifyWindow _).bind fun _ => .pure _
    · exact .pure _
  split
  · exact (heedful_modifyWindow _).bind fun _ => hlines
  · exact hlines

theorem heedful_insertDirectory (place : Nat) (entries : List (Bytes × Option Suffix)) :
    Heedful Engine.interrupted (insertDirectory place entries) := by
  unfold insertDirectory
  refine .bind .get fun e => (Heedful.liftExcept (e.view.checkPlace_reads place)).bind fun _ => ?_
  refine (Heedful.liftExcept (e.view.checkCapacity_reads _)).bind fun _ => ?_
  exact (heedful_modifyWindow _).bind fun _ => (heedful_onWindow _).bind fun _ => .pure _

theorem heedful_extractRange (start stop : Nat) :
    Heedful Engine.interrupted (extractRange start stop) := by
  unfold extractRange
  refine .bind .get fun e => ?_
  exact (Heedful.liftExcept (e.view.checkRun_reads start stop)).bind fun _ => .lift _

/-! ## Sessions and windows -/

theorem heedful_switchSession (n : Nat) : Heedful Engine.interrupted (switchSession n) := by
  unfold switchSession
  refine .get_bind fun e => heeds_reads (e.table.checkSlot_reads n) fun _ => ?_
  split <;> exact leads_bind.mpr (leads_set.mpr (leads_pure.mpr rfl))

theorem heedful_closeSession : Heedful Engine.interrupted closeSession := by
  unfold closeSession
  refine .get_bind fun e => ?_
  split
  · exact leads_pure.mpr rfl
  · refine heeds_reads (e.others.take_reads _) fun next => heeds_lift fun r => ?_
    exact leads_bind.mpr (leads_set.mpr (leads_pure.mpr rfl))

theorem heedful_moveSession (target : Option Nat) :
    Heedful Engine.interrupted (moveSession target) := by
  have hmove (e : Engine) (n : Nat) : Leads (do
      liftExcept (e.table.checkSlot n)
      if e.table.isActive n then throw (.sessionActive n)
      set { e with slot := n }
      return n) e (Heeds Engine.interrupted e) := by
    refine heeds_reads (e.table.checkSlot_reads n) fun _ => ?_
    dsimp only
    split
    · exact leads_throw.mpr (.plain rfl)
    · exact leads_bind.mpr (leads_set.mpr (leads_pure.mpr rfl))
  unfold moveSession
  refine .get_bind fun e => ?_
  cases target with
  | some n => exact hmove e n
  | none =>
    dsimp only
    split
    · exact hmove e _
    · exact leads_throw.mpr (.plain rfl)

theorem heedful_pushWindow (flags : WindowFlags) :
    Heedful Engine.interrupted (pushWindow flags) := by
  unfold pushWindow
  exact .get_bind fun e => leads_bind.mpr (leads_set.mpr (leads_pure.mpr rfl))

theorem heedful_replaceWindow (flags : WindowFlags) :
    Heedful Engine.interrupted (replaceWindow flags) := by
  unfold replaceWindow
  refine .get_bind fun e => heeds_lift fun r => heeds_lift fun q => ?_
  exact leads_bind.mpr (leads_set.mpr (leads_pure.mpr rfl))

theorem heedful_popWindow : Heedful Engine.interrupted popWindow := by
  unfold popWindow
  refine .get_bind fun e => ?_
  cases hpop : e.session.pop? with
  | none => exact leads_throw.mpr (.plain rfl)
  | some popped => exact heeds_lift fun r => heeds_lift fun q => leads_set.mpr rfl

/-! ## Commands on lines -/

theorem heedful_printDot (print : Option PrintStyle) :
    Heedful Engine.interrupted (printDot print) := by
  unfold printDot
  refine .bind .get fun e => ?_
  split
  · exact .lift _
  · exact .pure _

theorem heedful_edit (change : Edit) : Heedful Engine.interrupted (edit change) := by
  unfold edit
  exact (heedful_onWindow _).bind fun _ => heedful_modifyWindow _

theorem heedful_carryOut (inGlobal : Bool) (plan : Plan) :
    Heedful Engine.interrupted (carryOut inGlobal plan) := by
  cases plan with
  | look dot output =>
    cases dot with
    | none => exact .bind (.pure _) fun _ => .pure _
    | some n => exact (heedful_onWindow _).bind fun _ => .pure _
  | label name line => exact (heedful_modifyWindow _).bind fun _ => .pure _
  | edit change shapeChanged print =>
    have hedit : Heedful Engine.interrupted (do
        edit change
        return Report.ofEdit shapeChanged (← printDot print)) :=
      (heedful_edit change).bind fun _ => (heedful_printDot print).bind fun _ => .pure _
    unfold carryOut
    dsimp only
    split
    · exact heedful_snapshot.bind fun _ => hedit
    · exact hedit

theorem heedful_runLine (inGlobal : Bool) (cmd : Option LineCommand) (range : LineRange)
    (tail : List Char) : Heedful Engine.interrupted (runLine inGlobal cmd range tail) := by
  unfold runLine
  exact (heedful_query fun v => v.heedful_plan cmd range tail).bind fun plan =>
    heedful_carryOut inGlobal plan

theorem heedful_runSubcommand (text : List Char) :
    Heedful Engine.interrupted (runSubcommand text) := by
  unfold runSubcommand
  rw [CommandLine.lift_read]
  refine (Heedful.liftExcept (CommandLine.parse_reads text)).bind fun line => ?_
  refine (Heedful.liftExcept (identify_reads line.letter)).bind fun cmd => .bind .get fun e => ?_
  refine (Heedful.liftExcept (checkMode_reads _ cmd)).bind fun _ => ?_
  refine (Heedful.liftExcept (checkGlobal_reads cmd)).bind fun lineCmd => ?_
  refine (heedful_query fun v => v.heedful_locate true cmd line.range).bind fun range => ?_
  exact heedful_runLine true lineCmd range line.tail

/-! ## Typed text -/

theorem heedful_beginEntry (place : Nat) (replace : Option (Nat × Nat)) :
    Heedful Engine.interrupted (beginEntry place replace) :=
  Heedful.bind (.modify fun _ => rfl) fun _ => .pure _

theorem heedful_commitEntry (entry : TextEntry) :
    Heedful Engine.interrupted (commitEntry entry) := by
  have hput : Heedful Engine.interrupted (do
      snapshot
      edit (entryEdit entry)
      return Report.ofEdit true []) :=
    heedful_snapshot.bind fun _ => (heedful_edit _).bind fun _ => .pure _
  unfold commitEntry
  refine .bind .get fun e => ?_
  split
  · exact .pure _
  · refine (Heedful.lift _).bind fun removed => ?_
    split
    · exact .pure _
    · split
      · exact (heedful_checkCapacity _).bind fun _ => hput
      · exact hput

theorem heedful_typeLine (entry : TextEntry) (line : List Char) :
    Heedful Engine.interrupted (typeLine entry line) := by
  unfold typeLine
  split
  · exact Heedful.bind (.modify fun _ => rfl) fun _ => heedful_commitEntry entry
  · exact Heedful.bind (.modify fun _ => rfl) fun _ => .pure _

/-! ## Files and sessions -/

theorem heedful_guardUnsaved (changed : Bool) :
    Heedful Engine.interrupted (guardUnsaved changed) := by
  unfold guardUnsaved
  refine .bind .get fun e => ?_
  split
  · exact Heedful.bind (.modify fun _ => rfl) fun _ => .throw rfl
  · exact .modify fun _ => rfl

theorem heedful_targetFile (tail : List Char) : Heedful Engine.interrupted (targetFile tail) := by
  unfold targetFile
  dsimp only
  split
  · refine .bind .get fun e => ?_
    split
    · exact .pure _
    · exact .throw rfl
  · exact .pure _

theorem heedful_editSession (digits : List Char) :
    Heedful Engine.interrupted (editSession digits) := by
  unfold editSession
  refine (Heedful.liftExcept (sessionNumber_reads digits)).bind fun n => ?_
  refine (heedful_switchSession n).bind fun created => Heedful.bind (.modify fun _ => rfl) fun _ => ?_
  dsimp only
  split
  · exact .pure _
  · refine .bind .get fun e => ?_
    split <;> exact .pure _

theorem heedful_showLoaded (path : List Char) (onTop : Bool) (loaded : Loaded) :
    Heedful Engine.interrupted (showLoaded path onTop loaded) := by
  have hname (size : Nat) : Heedful Engine.interrupted (do
      modifyWindow fun w => { w with fileName := some path }
      return Report.ofSwitch [toString size]) :=
    (heedful_modifyWindow _).bind fun _ => .pure _
  have hopen {f : EditM Report} (hf : Heedful Engine.interrupted f) :
      Heedful Engine.interrupted (if onTop then (do let _ ← pushWindow .none; f)
        else (do let _ ← replaceWindow .none; f)) := by
    split
    · exact (heedful_pushWindow _).bind fun _ => hf
    · exact (heedful_replaceWindow _).bind fun _ => hf
  unfold showLoaded
  refine .bind .get fun e => ?_
  cases loaded with
  | file bytes =>
    dsimp only
    split
    · exact .throw rfl
    · exact hopen ((heedful_insertBulk 0 bytes).bind fun _ => hname _)
  | directory entries =>
    dsimp only
    split
    · exact .throw rfl
    · exact hopen ((heedful_insertDirectory 0 entries).bind hname)

theorem heedful_runQuit (tail : List Char) : Heedful Engine.interrupted (runQuit tail) := by
  unfold runQuit
  refine (Heedful.liftExcept (noTail_reads _ tail)).bind fun _ => .bind .get fun e => ?_
  refine (heedful_guardUnsaved _).bind fun _ => heedful_closeSession.bind fun slot => ?_
  split <;> exact .pure _

theorem heedful_runFileName (tail : List Char) : Heedful Engine.interrupted (runFileName tail) := by
  unfold runFileName
  dsimp only
  split
  case' isTrue => refine (heedful_modifyWindow _).bind fun _ => ?_
  all_goals
    refine .bind .get fun e => ?_
    split
    · exact .pure _
    · exact .throw rfl

theorem heedful_insertFile (path : List Char) (place : Nat) (bytes : Bytes) :
    Heedful Engine.interrupted (insertFile path place bytes) := by
  unfold insertFile
  refine (heedful_checkCapacity _).bind fun _ => (heedful_modifyWindow _).bind fun _ => ?_
  split
  · exact .pure _
  · refine heedful_snapshot.bind fun _ => (heedful_insertBulk place bytes).bind fun _ => ?_
    exact (heedful_modifyWindow _).bind fun _ => .pure _

theorem heedful_noteWritten (path : List Char) (range : LineRange) (append : Bool) (count : Nat) :
    Heedful Engine.interrupted (noteWritten path range append count) := by
  unfold noteWritten
  refine .bind .get fun e => (heedful_modifyWindow _).bind fun _ => ?_
  dsimp only
  split
  · exact (heedful_modifyWindow _).bind fun _ => .pure _
  · exact .pure _

end EditM

end LineEditor
