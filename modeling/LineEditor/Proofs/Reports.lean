import LineEditor.Proofs.KeptRecords
import LineEditor.Proofs.ProperTexts
import Mathlib.Algebra.Order.BigOperators.Group.List
import Mathlib.Algebra.Order.Group.Nat

/-!
# Reports

A report tells whether the text changed and whether lines may stand elsewhere. What it denies did not
happen: each command is followed to its report, and a global command adds up the reports of its
visits. Labels are apart from this: a line that sets one says so by its letter.
-/

namespace LineEditor

/-! ## Labels that are asked for -/

/-- The label that the command `k` is to set. -/
def LineCommand.label? (c : LineCommand) (tail : List Char) : Option Char :=
  match c, Unicode.trim tail with
  | label, [name] => some name
  | _, _ => none

namespace Request

/-- The label that a command on lines is to set. -/
def ownLabel? (q : Request) : Option Char :=
  match q.command with
  | some (.line c) => c.label? q.tail
  | _ => none

/-- The label that the line of a global command is to set. -/
def labelIn? (text : List Char) : Option Char := (read text).toOption.bind ownLabel?

/-- The label that a request is to set, itself or by the line of a global command. -/
def label? (q : Request) : Option Char :=
  match q.command with
  | some (.global _) => do
    let (_, pattern) ← (Delimited.first q.tail).toOption
    labelIn? (GlobalRequest.subcommandOf pattern.rest)
  | _ => q.ownLabel?

end Request

/-- The label that a line is to set. -/
def Engine.label? (e : Engine) (line : List Char) : Option Char := (e.asks line).bind Request.label?

/-! ## What edits leave alone -/

theorem Labels.get?_put_of_ne (l : Labels) {name other : Char} (hne : other ≠ name)
    (line : Option Nat) : (l.put name line).get? other = l.get? other := by
  unfold put get?
  cases hn : index? name with
  | none => rfl
  | some i =>
    cases ho : index? other with
    | none => rfl
    | some j =>
      have hij : i.val ≠ j.val := by
        unfold index? at hn ho
        split at hn <;> cases hn
        split at ho <;> cases ho
        intro heq
        dsimp only at heq
        exact hne (Char.toNat_inj.mp (by omega))
      simp [hij]

namespace Window

/-- Lines are where they were, and so are labels, but for the one that is named. -/
structure SameShape (named : Option Char) (w w' : Window) : Prop where
  dol_eq : w'.dol = w.dol
  labels_eq : ∀ name, named ≠ some name → w'.labels.get? name = w.labels.get? name

section
variable {named : Option Char} {w w' w'' : Window} {p p' : Pool}

theorem SameShape.refl (w : Window) : w.SameShape named w := ⟨rfl, fun _ _ => rfl⟩

theorem SameShape.trans (h : w.SameShape named w') (h' : w'.SameShape named w'') :
    w.SameShape named w'' :=
  ⟨h'.dol_eq.trans h.dol_eq, fun name hne => (h'.labels_eq name hne).trans (h.labels_eq name hne)⟩

theorem sameShape_setLabel (w : Window) (name : Char) (n : Nat) :
    w.SameShape (some name) ((w.setLabel name n).getD w) := by
  unfold setLabel
  split
  · exact ⟨rfl, fun other hne => w.labels.get?_put_of_ne (fun heq => hne (congrArg some heq.symm)) _⟩
  · exact .refl w

/-- A line that becomes one line keeps its labels. -/
theorem reviseLine_sameShape {n : Nat} {line : Bytes}
    (h : w.reviseLine p n [line] = .ok (w', p')) : w.SameShape named w' := by
  have hne : [line] ≠ [] := List.cons_ne_nil line []
  obtain ⟨w₁, hreplace, -⟩ := reviseLine_eq_ok hne h
  obtain ⟨new, -, -, hfit, -⟩ := replaceLines_eq_ok hne hreplace
  refine ⟨?_, fun name _ => ?_⟩
  · rw [(reviseLine_spliced h).dol_eq, List.length_singleton]
    omega
  · rw [reviseLine_labels hne h name]
    cases w.labels.get? name <;> simp

theorem reviseLines_sameShape {changes : List (Nat × List Bytes)} {shift : Nat}
    (hsingle : ∀ c ∈ changes, c.2.length = 1)
    (h : w.reviseLines p shift changes = .ok (w', p')) : w.SameShape named w' := by
  induction changes generalizing w p shift with
  | nil =>
    cases h
    exact .refl _
  | cons c rest ih =>
    obtain ⟨n, lines⟩ := c
    obtain ⟨hlines, hrest⟩ := List.forall_mem_cons.mp hsingle
    obtain ⟨line, rfl⟩ := List.length_eq_one_iff.mp hlines
    obtain ⟨w₁, p₁, hrevise, h⟩ := reviseLines_cons h
    have hline : w.SameShape named w₁ := reviseLine_sameShape hrevise
    have hdot (n : Nat) : w.SameShape named (w₁.setDot n) := ⟨hline.dol_eq, hline.labels_eq⟩
    exact (hdot _).trans (ih hrest h)

end

end Window

/-! ## What plans tell -/

/-- A plan sets no label but the one that is named, and an edit that lets all lines stand where they
are turns each line of some into one line. -/
def Plan.Tells (named : Option Char) : Plan → Prop
  | .look _ _ => True
  | .label name _ => named = some name
  | .edit change shape _ => shape = false →
    ∃ changes, change = .revise changes ∧ ∀ c ∈ changes, c.2.length = 1

def Plan.tells (named : Option Char) : Post Recall Plan
  | .ok plan, _ => plan.Tells named
  | .error _, _ => True

/-- Where each of some steps is taken in turn, each of them is taken. -/
theorem mapM_eq_ok {f : α → Except Breach β} {l : List α} {ys : List β} (h : l.mapM f = .ok ys) :
    ∀ x ∈ l, ∃ y, f x = .ok y := by
  induction l generalizing ys with
  | nil => exact fun _ hx => by cases hx
  | cons a l ih =>
    rw [List.mapM_cons] at h
    obtain ⟨y, ha, h⟩ := bind_eq_ok.mp h
    obtain ⟨ys', hl, -⟩ := bind_eq_ok.mp h
    exact List.forall_mem_cons.mpr ⟨⟨y, ha⟩, ih hl⟩

/-- Where no line is added, each of the lines becomes one. -/
theorem View.linesAdded_eq_zero {changes : List (Nat × List Bytes)}
    (h : View.linesAdded changes = .ok 0) : ∀ c ∈ changes, c.2.length = 1 := by
  have hpos : ∀ c ∈ changes, 1 ≤ c.2.length := by
    intro c hc
    unfold linesAdded at h
    obtain ⟨counts, hcounts, -⟩ := bind_eq_ok.mp h
    obtain ⟨count, hcount⟩ := mapM_eq_ok hcounts c hc
    exact Nat.not_lt.mp (guarded_eq_ok hcount).1
  rw [linesAdded_eq fun c hc => List.length_pos_iff.mp (hpos c hc)] at h
  intro c hc
  have hle := List.le_sum_of_mem (List.mem_map_of_mem (f := fun c => c.2.length - 1) hc)
  rw [Except.ok.inj h] at hle
  have hone := hpos c hc
  omega

namespace View

section
variable {v : View} {r : Recall} {named : Option Char}

theorem tells_after {x : Query α} {f : α → Query Plan}
    (hf : ∀ a r', Leads (f a) r' (Plan.tells named)) : Leads (x >>= f) r (Plan.tells named) :=
  leads_after (fun _ _ => trivial) hf

theorem tells_throw (err : EditError) :
    Leads (throw err : Query Plan) r (Plan.tells named) :=
  leads_throw.mpr trivial

theorem planGoto_tells (n : Nat) (print : Option PrintStyle) :
    Leads (v.planGoto n print) r (Plan.tells named) := by
  unfold planGoto
  cases print with
  | none => exact leads_pure.mpr trivial
  | some style => exact tells_after fun _ _ => leads_pure.mpr trivial

theorem tells_edit (change : Edit) (print : Option PrintStyle) :
    Leads (pure (.edit change true print) : Query Plan) r (Plan.tells named) :=
  leads_pure.mpr fun hshape => by cases hshape

theorem planLabel_tells (range : LineRange) (tail : List Char) :
    Leads (planLabel range tail) r (Plan.tells (LineCommand.label.label? tail)) := by
  unfold planLabel LineCommand.label?
  split
  · exact tells_throw _
  · split
    · exact leads_pure.mpr (by simp_all [Plan.tells, Plan.Tells])
    · exact tells_throw _
  · exact tells_throw _

theorem planSubstitute_tells (range : LineRange) (tail : List Char) :
    Leads (v.planSubstitute range tail) r (Plan.tells named) := by
  unfold planSubstitute
  refine tells_after fun request _ => tells_after fun _ _ => tells_after fun texts _ => ?_
  refine tells_after fun changes _ => ?_
  dsimp only
  split
  · exact tells_throw _
  · refine leads_bind.mpr (leads_lift.mpr fun extra hextra => ?_)
    refine tells_after fun _ _ => leads_pure.mpr fun hshape => ⟨changes, rfl, ?_⟩
    rw [Nat.eq_zero_of_not_pos (of_decide_eq_false hshape)] at hextra
    exact linesAdded_eq_zero hextra

theorem plan_tells (cmd : Option LineCommand) (range : LineRange) (tail : List Char) :
    Leads (v.plan cmd range tail) r (Plan.tells (cmd.bind fun c => c.label? tail)) := by
  unfold plan
  cases cmd with
  | none => exact planGoto_tells _ _
  | some c =>
    cases c with
    | print style =>
      exact tells_after fun _ _ => tells_after fun _ _ => tells_after fun _ _ =>
        tells_after fun _ _ => leads_pure.mpr trivial
    | lineNumber => exact tells_after fun _ _ => leads_pure.mpr trivial
    | delete => exact tells_after fun _ _ => tells_edit _ _
    | join spaced =>
      refine tells_after fun print _ => ?_
      split
      · exact planGoto_tells _ _
      · refine tells_after fun texts _ => ?_
        generalize List.intercalate _ texts = joined
        dsimp only
        split
        · exact tells_throw _
        · exact tells_edit _ _
    | move =>
      refine tells_after fun ⟨dest, print⟩ _ => ?_
      dsimp only
      split
      · exact tells_throw _
      · split
        · exact planGoto_tells _ _
        · exact tells_edit _ _
    | copy =>
      exact tells_after fun _ _ => tells_after fun _ _ => tells_after fun _ _ => tells_edit _ _
    | label => exact planLabel_tells range tail
    | substitute => exact planSubstitute_tells range tail

end

end View

/-! ## What reports deny -/

namespace Engine

/-- What the report denies did not happen on the way between two engines: no line of the current window
has another text, and none stands elsewhere, nor does a label other than the one that is named. -/
structure Truthful (named : Option Char) (e : Engine) (report : Report) (e' : Engine) : Prop where
  texts_eq : report.changed = false → e'.pool.texts e'.window.lines = e.pool.texts e.window.lines
  shape : report.shapeChanged = false → e.window.SameShape named e'.window

/-- A report is truthful; where a command is refused, there was nothing to report. -/
def Tells (named : Option Char) (e : Engine) : Post Engine Report
  | .ok report, e' => e.Truthful named report e'
  | .error _, e' => e.Truthful named .clean e'

/-- A report is truthful; nothing is said of a command that stopped. -/
def TellsDone (named : Option Char) (e : Engine) : Post Engine Report
  | .ok report, e' => e.Truthful named report e'
  | .error _, _ => True

section
variable {named : Option Char} {e e' e'' : Engine} {r : Report}

theorem Truthful.trans {s : Report} (h : e.Truthful named r e') (h' : e'.Truthful named s e'') :
    e.Truthful named (r.followedBy s) e'' where
  texts_eq hc := by
    obtain ⟨hr, hs⟩ := Bool.or_eq_false_iff.mp hc
    exact (h'.texts_eq hs).trans (h.texts_eq hr)
  shape hc := by
    obtain ⟨hr, hs⟩ := Bool.or_eq_false_iff.mp hc
    exact (h.shape hr).trans (h'.shape hs)

/-- Before a report there may be work that nobody has to be told of. -/
theorem Truthful.before (h : e.Truthful named .clean e') (h' : e'.Truthful named r e'') :
    e.Truthful named r e'' :=
  ⟨fun hc => (h'.texts_eq hc).trans (h.texts_eq rfl), fun hc => (h.shape rfl).trans (h'.shape hc)⟩

theorem Truthful.behind (h : e.Truthful named r e') (h' : e'.Truthful named .clean e'') :
    e.Truthful named r e'' :=
  ⟨fun hc => (h'.texts_eq rfl).trans (h.texts_eq hc), fun hc => (h.shape hc).trans (h'.shape rfl)⟩

/-- Lines with the same stored text in the same order need no report. -/
theorem truthful_same (e : Engine) {w : Window} (report : Report)
    (hl : w.lines.map Entry.content = e.window.lines.map Entry.content)
    (hlabels : e.window.SameShape named w) : e.Truthful named report (e.setWindow w) :=
  ⟨fun _ => Pool.texts_of_content _ hl, fun _ => hlabels⟩

theorem Truthful.refl (e : Engine) (report : Report) : e.Truthful named report e :=
  ⟨fun _ => rfl, fun _ => .refl _⟩

theorem truthful_mark (e : Engine) {l : LineMap} (hl : l.clearMarks = e.window.lines.clearMarks)
    (report : Report) : e.Truthful named report (e.setWindow { e.window with lines := l }) := by
  have hcontent : l.map Entry.content = e.window.lines.map Entry.content := by
    rw [← LineMap.content_clearMarks, hl, LineMap.content_clearMarks]
  refine e.truthful_same report hcontent ⟨?_, fun _ _ => rfl⟩
  have hlength := congrArg List.length hcontent
  rwa [List.length_map, List.length_map] at hlength

theorem truthful_changed (e e' : Engine) (output : List String) :
    e.Truthful named (.ofEdit true output) e' :=
  ⟨fun hc => (by cases hc), fun hc => (by cases hc)⟩

theorem truthful_typing (e : Engine) (entry : Option TextEntry) (report : Report) :
    e.Truthful named report { e with entry := entry } :=
  ⟨fun _ => rfl, fun _ => ⟨rfl, fun _ _ => rfl⟩⟩

theorem truthful_recall (e : Engine) (r : Recall) (report : Report) :
    e.Truthful named report (e.withRecall r) :=
  ⟨fun _ => rfl, fun _ => ⟨rfl, fun _ _ => rfl⟩⟩

theorem truthful_begun (e : Engine) (cmd : Option Command) (r : Recall) (report : Report) :
    e.Truthful named report ((e.begun cmd).withRecall r) := by
  rw [begun_eq]
  exact ⟨fun _ => rfl, fun _ => ⟨rfl, fun _ _ => rfl⟩⟩

theorem Stays.truthful (h : e.Stays e') (report : Report) : e.Truthful named report e' where
  texts_eq _ := by rw [h.pool_eq, h.window_eq]
  shape _ := by
    rw [h.window_eq]
    exact ⟨rfl, fun _ _ => rfl⟩

theorem Truthful.tells (h : e.Truthful named .clean e') {answer : Except EditError Report}
    (h' : e'.Tells named answer e'') : e.Tells named answer e'' := by
  cases answer with
  | ok report => exact h.before h'
  | error err => exact h.before h'

theorem Truthful.tellsDone (h : e.Truthful named .clean e') {answer : Except EditError Report}
    (h' : e'.TellsDone named answer e'') : e.TellsDone named answer e'' := by
  cases answer with
  | ok report => exact h.before h'
  | error err => exact trivial

theorem Tells.done {answer : Except EditError Report} (h : e.Tells named answer e') :
    e.TellsDone named answer e' := by
  cases answer with
  | ok report => exact h
  | error err => exact trivial

end

end Engine

namespace EditM

section
variable {named : Option Char} {e e' : Engine}

/-! ## Commands on lines -/

theorem printDot_leads (print : Option PrintStyle) :
    Leads (printDot print) e fun answer e' => answer.toOption.isSome ∧ e' = e := by
  unfold printDot
  rw [leads_get_bind]
  cases print with
  | none => exact leads_pure.mpr ⟨rfl, rfl⟩
  | some style => exact leads_lift.mpr fun _ _ => ⟨rfl, rfl⟩

theorem goto_truthful (named : Option Char) (n : Nat) : Leads (goto n) e fun _ e' => e.Truthful named .clean e' := by
  unfold goto onWindow
  rw [leads_get_bind, leads_bind, leads_lift]
  intro r hr
  obtain ⟨w, hgoto, heq⟩ := bind_eq_ok.mp hr
  obtain ⟨-, hw⟩ := guarded_eq_ok hgoto
  cases hw
  cases heq
  exact leads_set.mpr (e.truthful_same .clean rfl ⟨rfl, fun _ _ => rfl⟩)

/-- An edit is reported as a change. Its shape is as the plan tells. -/
theorem edit_truthful {change : Edit} {shape : Bool} (print : Option PrintStyle)
    (htells : (Plan.edit change shape print).Tells named) : Leads (do
      edit change
      return .ofEdit shape (← printDot print)) e (e.Tells named) := by
  unfold edit
  rw [bind_assoc, leads_onWindow_bind]
  intro w p hrun
  rw [leads_modifyWindow_bind]
  refine (printDot_leads print).then ?_ fun _ _ h => by cases h.1
  rintro output _ ⟨-, rfl⟩
  refine leads_pure.mpr ⟨fun hc => (by cases hc), fun hshape => ?_⟩
  obtain ⟨changes, rfl, hsingle⟩ := htells hshape
  have hsame : e.window.SameShape named w := Window.reviseLines_sameShape hsingle hrun
  show e.window.SameShape named w.noteEdit
  unfold Window.noteEdit
  split
  · exact hsame
  · exact ⟨hsame.dol_eq, hsame.labels_eq⟩

theorem snapshot_truthful (named : Option Char) (h : e.Held) :
    Leads snapshot e fun _ e' => e.Truthful named .clean e' := by
  refine (snapshot_leads (Engine.sustained_inPlace e).toLocal (.refl h)).mono ?_
  rintro _ e₁ ⟨-, hwindow, -, hrows⟩
  refine ⟨fun _ => ?_, fun _ => ?_⟩
  · rw [hwindow]
    exact congrArg _ hrows
  · rw [hwindow]
    exact ⟨rfl, fun _ _ => rfl⟩

theorem carryOut_tells {inGlobal : Bool} (h : inGlobal = false → e.Held) {plan : Plan}
    (htells : plan.Tells named) : Leads (carryOut inGlobal plan) e (e.Tells named) := by
  unfold carryOut
  cases plan with
  | look dot output =>
    cases dot with
    | none => exact leads_pure.mpr (.refl e _)
    | some n =>
      exact (goto_truthful named n).then (fun _ e₁ h₁ => leads_pure.mpr (h₁.before (.refl e₁ _)))
        fun _ _ h₁ => h₁
  | label name line =>
    obtain rfl : named = some name := htells
    refine leads_modifyWindow_bind.mpr (leads_pure.mpr (e.truthful_same _ ?_ ?_))
    · rw [(e.window.noted_setLabel name line).lines_eq]
    · exact e.window.sameShape_setLabel name line
  | edit change shape print =>
    cases inGlobal with
    | true => exact edit_truthful print htells
    | false =>
      refine (snapshot_truthful named (h rfl)).then (fun _ e₁ h₁ => ?_) fun _ _ h₁ => h₁
      exact (edit_truthful print htells).mono fun _ _ => h₁.tells

theorem runLine_tells {inGlobal : Bool} (h : inGlobal = false → e.Held) (cmd : Option LineCommand)
    (range : LineRange) (tail : List Char) :
    Leads (runLine inGlobal cmd range tail) e (e.Tells (cmd.bind fun c => c.label? tail)) := by
  unfold runLine
  rw [leads_bind, leads_query]
  refine (View.plan_tells cmd range tail).mono fun answer r htells => ?_
  cases answer with
  | ok plan =>
    have hheld (hin : inGlobal = false) : (e.withRecall r).Held := ⟨(h hin).vacant, (h hin).accounts⟩
    exact (carryOut_tells hheld htells).mono fun _ _ => (e.truthful_recall r .clean).tells
  | error err => exact e.truthful_recall r .clean

/-! ## Global commands -/

theorem runSubcommand_tells (text : List Char) :
    Leads (runSubcommand text) e (e.Tells (Request.labelIn? text)) := by
  unfold runSubcommand
  rw [CommandLine.lift_read, leads_bind, leads_liftExcept]
  cases hparse : CommandLine.parse text with
  | error err => exact .refl e _
  | ok line =>
    rw [Post.after_ok, leads_bind, leads_liftExcept]
    cases hcmd : identify line.letter with
    | error err => exact .refl e _
    | ok cmd =>
      have hread : Request.read text = .ok ⟨cmd, line.range, line.tail⟩ := by
        rw [Request.read, hparse]
        show (identify line.letter >>= _) = _
        rw [hcmd]
        rfl
      rw [Post.after_ok, leads_get_bind]
      refine leads_reads (checkMode_reads _ cmd) (fun _ _ => ?_) fun _ => .refl e _
      refine leads_reads (checkGlobal_reads cmd) (fun lineCmd hline => ?_) fun _ => .refl e _
      have hlabel : Request.labelIn? text = lineCmd.bind fun c => c.label? line.tail := by
        unfold Request.labelIn?
        rw [hread, hline]
        cases lineCmd <;> rfl
      rw [hlabel, leads_bind, leads_query]
      refine (leads_self _ _).mono fun answer r _ => ?_
      cases answer with
      | ok range =>
        exact (runLine_tells (by simp) lineCmd range line.tail).mono fun _ _ =>
          (e.truthful_recall r .clean).tells
      | error err => exact e.truthful_recall r .clean

theorem visit_tells (text : List Char) (n : Nat) (last : Option Nat) :
    Leads (visit text n last) e (e.Tells (Request.labelIn? text)) := by
  have hmark : e.Truthful (Request.labelIn? text) .clean
      (e.setWindow (e.window.setMark n false)) := by
    cases n with
    | zero => exact .refl e _
    | succ i => exact e.truthful_mark (LineMap.clearMarks_modify _ i false) _
  unfold visit
  rw [leads_modifyWindow_bind]
  refine (goto_truthful _ n).then (fun _ e₁ h₁ => ?_) fun _ _ h₁ => hmark.before h₁
  rw [leads_bind, leads_attempt]
  refine (runSubcommand_tells text).mono fun answer e₂ h₂ => ?_
  have h₃ := (hmark.before h₁).tells h₂
  -- what a substitution without a match is reported as, holds of every refusal
  cases answer with
  | ok report => exact leads_pure.mpr h₃
  | error err =>
    rw [Post.after_ok]
    split
    · cases ‹_ = _›
    · exact leads_pure.mpr h₃
    · exact leads_throw.mpr h₃

/-- The reports of the visits add up. -/
theorem visitMarked_tells (text : List Char) (fuel n : Nat) (last : Option Nat) :
    Leads (visitMarked text fuel n last) e (e.TellsDone (Request.labelIn? text)) := by
  -- on the number of visits that may come
  induction fuel generalizing e n last with
  | zero => exact leads_pure.mpr (.refl e _)
  | succ fuel ih =>
    unfold visitMarked
    rw [leads_get_bind]
    cases e.window.lines.nextMarked? n with
    | none => exact leads_pure.mpr (.refl e _)
    | some k =>
      refine (visit_tells text k last).then (fun report e₁ h₁ => ?_) fun _ _ _ => trivial
      rw [leads_get_bind]
      refine (ih _ _).then (fun rest e₂ h₂ => ?_) fun _ _ _ => trivial
      exact leads_pure.mpr (h₁.trans h₂)

/-- The subcommand stands behind the pattern. -/
theorem parse_subcommand (v : View) (inverted : Bool) (range : LineRange) {tail : List Char}
    {r : Recall} : Leads (GlobalRequest.parse v inverted range tail) r fun answer _ =>
      ∀ request, answer = .ok request → ∃ found, Delimited.first tail = .ok found ∧
        request.subcommand = GlobalRequest.subcommandOf found.2.rest := by
  unfold GlobalRequest.parse
  rw [Delimited.lift_readFirst, leads_bind, leads_liftExcept]
  cases htail : Delimited.first tail with
  | error err => exact fun _ h => by cases h
  | ok found =>
    rw [Post.after_ok]
    refine leads_after (fun _ _ _ h => (by cases h)) fun source _ => ?_
    refine leads_after (fun _ _ _ h => (by cases h)) fun matcher _ => ?_
    refine leads_after (fun _ _ _ h => (by cases h)) fun _ _ => ?_
    refine leads_after (fun _ _ _ h => (by cases h)) fun _ _ => ?_
    refine leads_after (fun _ _ _ h => (by cases h)) fun lines _ => ?_
    dsimp only
    split
    · exact leads_after (fun _ _ _ h => (by cases h)) fun _ _ => leads_pure.mpr fun request h => by
        cases h
        exact ⟨found, rfl, rfl⟩
    · refine leads_pure.mpr fun request h => ?_
      cases h
      exact ⟨found, rfl, rfl⟩

theorem runGlobal_tells (h : e.Held) (inverted : Bool) (range : LineRange) (tail : List Char)
    (expr : RangeExpr) : Leads (runGlobal inverted range tail) e
      (e.TellsDone (Request.label? ⟨some (.global inverted), expr, tail⟩)) := by
  unfold runGlobal
  rw [leads_bind, leads_query]
  refine (parse_subcommand _ inverted range).mono fun answer r hparse => ?_
  cases answer with
  | error err => exact trivial
  | ok request =>
    obtain ⟨found, hfirst, hsub⟩ := hparse request rfl
    have hlabel : Request.label? ⟨some (.global inverted), expr, tail⟩ =
        Request.labelIn? request.subcommand := by
      unfold Request.label?
      rw [hsub, hfirst]
      rfl
    rw [hlabel, Post.after_ok, leads_modifyWindow_bind]
    have hheld : (e.withRecall r).Held := ⟨h.vacant, h.accounts⟩
    have hrun := (e.withRecall r).window.lines.clearMarks_markRun (range.start - 1) request.hits
    have hmarked := (Engine.sustained_inPlace _).mark (.refl hheld) hrun
    refine (snapshot_truthful (Request.labelIn? request.subcommand) hmarked.toHeld).then (fun _ e₁ h₁ => ?_) fun _ _ _ => trivial
    rw [leads_get_bind, leads_bind, leads_attempt]
    refine (visitMarked_tells _ _ _ _).mono fun outcome e₂ h₂ => ?_
    rw [Post.after_ok, leads_modifyWindow_bind, leads_liftExcept]
    cases outcome with
    | error err => exact trivial
    | ok report =>
      have hbefore := ((e.truthful_recall r .clean).before ((e.withRecall r).truthful_mark hrun _)).before h₁
      have hclear := (LineMap.unmarked_clearMarks e₂.window.lines).clearMarks_eq
      exact (hbefore.before h₂).behind (e₂.truthful_mark hclear _)

/-! ## Typed text and files -/

theorem done_after {x : EditM α} {f : α → EditM Report}
    (hf : ∀ a e₁, Leads (f a) e₁ (e.TellsDone named)) : Leads (x >>= f) e' (e.TellsDone named) :=
  leads_after (fun _ _ => trivial) hf

theorem done_changed (output : List String) :
    Leads (pure (Report.ofEdit true output)) e' (e.TellsDone named) :=
  leads_pure.mpr (e.truthful_changed e' output)

theorem commitEntry_tells (entry : TextEntry) : Leads (commitEntry entry) e (e.TellsDone named) := by
  unfold commitEntry
  rw [leads_get_bind]
  split
  · exact leads_pure.mpr (.refl e _)
  · refine leads_bind.mpr (leads_lift.mpr fun removed _ => ?_)
    rw [Post.after_ok]
    split
    · exact leads_pure.mpr (.refl e _)
    · split
      · exact done_after fun _ _ => done_after fun _ _ => done_after fun _ _ => done_changed _
      · exact done_after fun _ _ => done_after fun _ _ => done_changed _

theorem typeLine_tells (entry : TextEntry) (text : List Char) :
    Leads (typeLine entry text) e (e.TellsDone named) := by
  unfold typeLine
  split
  · rw [leads_modify_bind]
    exact (commitEntry_tells entry).mono fun _ _ => (e.truthful_typing none _).tellsDone
  · rw [leads_modify_bind]
    exact leads_pure.mpr (e.truthful_typing _ _)

theorem beginEntry_tells (after : Nat) (replace : Option (Nat × Nat)) :
    Leads (beginEntry after replace) e (e.TellsDone named) := by
  unfold beginEntry
  rw [leads_modify_bind]
  exact leads_pure.mpr (e.truthful_typing _ _)

theorem runFileName_tells (tail : List Char) :
    Leads (runFileName tail) e (e.TellsDone named) := by
  have hsame (name : Option (List Char)) (report : Report) :
      e.Truthful named report (e.setWindow { e.window with fileName := name }) :=
    e.truthful_same report rfl ⟨rfl, fun _ _ => rfl⟩
  unfold runFileName
  dsimp only
  split
  case' isTrue => rw [leads_modifyWindow_bind]
  all_goals
    rw [leads_get_bind]
    split
    · exact leads_pure.mpr (hsame _ _)
    · exact leads_throw.mpr trivial

theorem insertFile_tells (path : List Char) (place : Nat) (bytes : Bytes) :
    Leads (insertFile path place bytes) e (e.TellsDone named) := by
  unfold insertFile checkCapacity
  rw [bind_assoc, leads_get_bind]
  refine leads_reads (e.view.checkCapacity_reads _) (fun _ _ => ?_) fun _ => trivial
  unfold rememberFile
  rw [leads_modifyWindow_bind]
  split
  · exact leads_pure.mpr (e.truthful_same _ rfl ⟨rfl, fun _ _ => rfl⟩)
  · exact done_after fun _ _ => done_after fun _ _ => done_after fun _ _ => done_changed _

theorem runRead_tells (range : LineRange) (tail : List Char) :
    Leads (runRead range tail) e (Engine.Brings fun _ => e.TellsDone named) := by
  unfold runRead
  refine (targetFile_ends tail).leads.then ?_ fun _ _ _ => trivial
  rintro path _ ⟨rfl, -⟩
  refine leads_pure.mpr fun answer => ?_
  exact leads_reads (ofStorage_reads path answer) (fun bytes _ => insertFile_tells path _ bytes)
    fun _ => trivial

theorem runCommand_tells (h : e.Held) {q : Request} (hcmd : worksInPlace q.command = true)
    (range : LineRange) : Leads (runCommand q.command range q.tail) e
      (Engine.Brings fun _ => e.TellsDone q.label?) := by
  obtain ⟨cmd, expr, tail⟩ := q
  unfold runCommand
  cases cmd with
  | none => exact leads_done ((runLine_tells (fun _ => h) none range tail).mono fun _ _ => Engine.Tells.done)
  | some cmd =>
    cases cmd with
    | line c =>
      exact leads_done ((runLine_tells (fun _ => h) (some c) range tail).mono fun _ _ =>
        Engine.Tells.done)
    | append =>
      exact leads_done (leads_reads (noTail_reads _ tail) (fun _ _ => beginEntry_tells _ _)
        fun _ => trivial)
    | insert =>
      exact leads_done (leads_reads (noTail_reads _ tail) (fun _ _ => beginEntry_tells _ _)
        fun _ => trivial)
    | change =>
      refine leads_done (leads_reads (noTail_reads _ tail) (fun _ _ => ?_) fun _ => trivial)
      exact leads_bind.mpr (leads_lift.mpr fun after _ => beginEntry_tells _ _)
    | global inverted => exact leads_done (runGlobal_tells h inverted range tail expr)
    | fileName => exact leads_done (runFileName_tells tail)
    | read => exact runRead_tells range tail
    | _ => cases hcmd

theorem dispatch_tells (h : e.Held) {line : List Char}
    (hcmd : ∀ q, e.asks line = some q → worksInPlace q.command = true) :
    Leads (dispatch line) e (Engine.Brings fun _ => e.TellsDone (e.label? line)) := by
  unfold dispatch
  rw [leads_get_bind]
  split
  · exact leads_done (typeLine_tells _ _)
  · rename_i hn
    refine execute_leads (fun _ _ => trivial) (fun _ _ _ _ => trivial) fun q hq range _ _ r => ?_
    have hasks := Engine.asks_eq_some.mpr ⟨hn, hq⟩
    rw [show e.label? line = q.label? by rw [Engine.label?, hasks]; rfl]
    exact (runCommand_tells (h.begun q.command r) (hcmd q hasks) range).mono fun _ _ hb =>
      hb.mono fun _ _ _ => (e.truthful_begun q.command r .clean).tellsDone

/-- A command that works elsewhere reports it, unless the current window stays as it is. -/
theorem dispatch_elsewhere (h : e.Steady) {line : List Char} {q : Request} (hq : e.asks line = some q)
    (hcmd : worksInPlace q.command = false) : Leads (dispatch line) e
      (Engine.Brings fun _ answer e' => ∀ report, answer = .ok report → report.shapeChanged = false →
        ∃ r, ((e.begun q.command).withRecall r).Stays e') := by
  obtain ⟨hn, -⟩ := Engine.asks_eq_some.mp hq
  refine dispatch_asked hq (fun err r report hr => by cases hr) fun range _ _ r => ?_
  have hidle := (Engine.Idle.mk h hn).begun q.command r
  refine (runCommand_elsewhere hidle.toSound hcmd range q.tail).mono fun _ _ hb => hb.mono ?_
  rintro _ _ e' hp report rfl hshape
  exact ⟨r, hp.2 hshape⟩

end

end EditM

namespace Engine

section
variable {e e' : Engine} {storage : Storage σ} {line : List Char} {disk disk' : σ} {report : Report}

theorem Held.text?_eq (h : e.Held) (n : Nat) : e.window.text? e.pool n =
    .ok (if n = 0 then none else (e.pool.texts e.window.lines)[n - 1]?) := by
  cases n with
  | zero => rfl
  | succ i =>
    unfold Window.text? Window.entry? Pool.texts Pool.rows
    simp only [Nat.add_one_ne_zero, if_false, Nat.add_sub_cancel, List.getElem?_map]
    cases hx : e.window.lines[i]? with
    | none => rfl
    | some x =>
      have hmem : x.content ∈ e.window.lines.contents :=
        LineMap.mem_contents.mpr ⟨x, List.mem_of_getElem? hx, rfl⟩
      obtain ⟨text, hget, htext⟩ := h.accounts.get (Multiset.mem_add.mpr (.inl hmem))
      show (e.pool.get x.handle >>= _) = _
      rw [hget, Option.map_some, Option.map_some, Pool.row, htext]
      rfl

theorem Effect.inPlace {cmd : Option Command} {range : LineRange} {tail : List Char} {x : Traffic}
    (heff : e.Effect cmd range tail x (.ok report) e') (hcmd : EditM.worksInPlace cmd = true) :
    e.InPlace e' := by
  cases heff with
  | worked _ hin => exact hin
  | _ => cases hcmd

/-- A line works in the current window or elsewhere. What is done in the window is told truthfully. -/
theorem Steady.inPlace_or (hs : e.Steady)
    (hrun : e.dispatchOn storage line disk = .ok (.ok report, e', disk')) :
    (e'.window.id = e.window.id ∧ e.Truthful (e.label? line) report e') ∨
      ∃ q range r, e.asks line = some q ∧ EditM.worksInPlace q.command = false ∧
        ((e.begun q.command).withRecall r).Effect q.command range q.tail
          (e.traffic storage line disk) (.ok report) e' := by
  have htells (hwork : ∀ q, e.asks line = some q → EditM.worksInPlace q.command = true) :
      e.Truthful (e.label? line) report e' :=
    dispatchOn_brings (EditM.dispatch_tells hs.toHeld hwork) hrun
  cases dispatchOn_turns hs hrun with
  | typed hnone _ hin =>
    refine .inl ⟨hin.id_eq, htells fun q hq => ?_⟩
    rw [hnone] at hq
    cases hq
  | @ran q range _ _ _ r hq _ heff =>
    cases hwork : EditM.worksInPlace q.command with
    | false => exact .inr ⟨q, range, r, hq, hwork, heff⟩
    | true =>
      refine .inl ⟨(heff.inPlace hwork).id_eq.trans (e.begun_id q.command r), htells fun q' hq' => ?_⟩
      cases hq.symm.trans hq'
      exact hwork

/-- A line that leaves its window current tells what it does there, but for `u`. -/
theorem Steady.truthful (hs : e.Steady) (h : e.Shelved fun _ => none)
    (hrun : e.dispatchOn storage line disk = .ok (.ok report, e', disk'))
    (hundo : ∀ q, e.asks line = some q → q.command ≠ some .undo)
    (hid : e'.window.id = e.window.id) : e.Truthful (e.label? line) report e' := by
  obtain ⟨-, htruthful⟩ | ⟨q, range, r, hq, hwork, heff⟩ := hs.inPlace_or hrun
  · exact htruthful
  · rcases heff.stays (h.begun _ r) hwork (hid.trans (e.begun_id q.command r).symm) with hcmd | hstays
    · exact absurd hcmd (hundo q hq)
    · exact (e.truthful_begun q.command r .clean).before (hstays.truthful report)

/-- A line that does not report another shape leaves its window current, and the shape is the same. -/
theorem Steady.shape_kept (hs : e.Steady)
    (hrun : e.dispatchOn storage line disk = .ok (.ok report, e', disk'))
    (hshape : report.shapeChanged = false) :
    e'.window.id = e.window.id ∧ e.window.SameShape (e.label? line) e'.window := by
  obtain ⟨hid, htruthful⟩ | ⟨q, _, _, hq, hwork, _⟩ := hs.inPlace_or hrun
  · exact ⟨hid, htruthful.shape hshape⟩
  · obtain ⟨r, hstays⟩ :=
      dispatchOn_brings (EditM.dispatch_elsewhere hs hq hwork) hrun report rfl hshape
    refine ⟨?_, ((e.truthful_begun _ r .clean).before (hstays.truthful report)).shape hshape⟩
    rw [hstays.window_eq]
    exact e.begun_id q.command r

/-- Reports are truthful. Where no change is reported, and the line is not `u` and does not go to
another window, each line of the window has the text that it had. Where no other shape is reported,
the window is the same, with as many lines, and each label names the line that it named, but for the
label that the line sets with `k`, itself or as a global command. -/
theorem Reachable.reports_truthful (h : e.Reachable)
    (hrun : e.dispatchOn storage line disk = .ok (.ok report, e', disk')) :
    (report.changed = false → (∀ q, e.asks line = some q → q.command ≠ some .undo) →
      e'.window.id = e.window.id → e'.window.dol = e.window.dol ∧
        ∀ n, e'.window.text? e'.pool n = e.window.text? e.pool n) ∧
    (report.shapeChanged = false → e'.window.id = e.window.id ∧ e'.window.dol = e.window.dol ∧
      ∀ name, e.label? line ≠ some name →
        e'.window.labels.get? name = e.window.labels.get? name) := by
  have hs := h.steady
  have hheld' := ((dispatchOn_settles hs storage line disk).of_eq hrun).steady.toHeld
  constructor
  · intro hchanged hundo hid
    have htexts := (hs.truthful h.shelved hrun hundo hid).texts_eq hchanged
    constructor
    · have hlength := congrArg List.length htexts
      rwa [Pool.length_texts, Pool.length_texts] at hlength
    · intro n
      rw [hheld'.text?_eq, hs.toHeld.text?_eq, htexts]
  · intro hshape
    obtain ⟨hid, hsame⟩ := hs.shape_kept hrun hshape
    exact ⟨hid, hsame.dol_eq, hsame.labels_eq⟩

/-- Of two lines the last one gets a label, and all else is as it was. -/
theorem reports_truthful_label : ∃ e e' disk',
    (Engine.new ⟨1, 10, 100⟩).perform (.insertBulk 0 [97, 10, 98, 10]) = .ok e ∧
    e.dispatchOn FileTree.storage ['k', 'z'] .empty = .ok (.ok .clean, e', disk') ∧
    e.label? ['k', 'z'] = some 'z' ∧ e'.window.labels.get? 'z' = some 2 ∧ e'.window.dol = 2 ∧
    (∀ n, e'.window.text? e'.pool n = e.window.text? e.pool n) ∧
    e'.window.labels.get? 'a' = e.window.labels.get? 'a' := by
  obtain ⟨e, hstart, hs⟩ := (steady_new ⟨1, 10, 100⟩).perform (.insertBulk 0 [97, 10, 98, 10])
  have hr : e.Reachable := .call _ (.new _) hstart
  obtain ⟨⟨answer, e', disk'⟩, hline, -⟩ := dispatchOn_settles hs FileTree.storage ['k', 'z'] .empty
  have hvalues : ((Engine.new ⟨1, 10, 100⟩).perform (.insertBulk 0 [97, 10, 98, 10]) >>= fun e =>
      (e.dispatchOn FileTree.storage ['k', 'z'] .empty).map fun r => (r.1.toOption,
        r.2.1.window.id == e.window.id, r.2.1.window.labels.get? 'z', r.2.1.window.dol)).toOption =
      some (some .clean, true, some 2, 2) := by
    decide +kernel
  have hstate : ((Engine.new ⟨1, 10, 100⟩).perform (.insertBulk 0 [97, 10, 98, 10])).map (fun e =>
      ((e.asks ['k', 'z']).map Request.command, e.label? ['k', 'z'])) =
      .ok (some (some (.line .label)), some 'z') := by
    decide +kernel
  rw [hstart] at hvalues hstate
  change ((e.dispatchOn FileTree.storage ['k', 'z'] .empty).map _).toOption = _ at hvalues
  rw [hline] at hvalues
  obtain ⟨hanswer, hrest⟩ := Prod.mk.inj (Option.some.inj hvalues)
  obtain ⟨hid, hrest⟩ := Prod.mk.inj hrest
  obtain ⟨hlabel, hdol⟩ := Prod.mk.inj hrest
  obtain ⟨hasks, hnamed⟩ := Prod.mk.inj (Except.ok.inj hstate)
  cases answer with
  | error err => cases hanswer
  | ok report =>
    obtain rfl := Option.some.inj hanswer
    obtain ⟨htexts, hshape⟩ := Reachable.reports_truthful hr hline
    obtain ⟨-, hsame⟩ := htexts rfl (fun q hq hc => by
      rw [hq, Option.map_some, hc] at hasks
      cases hasks) (beq_iff_eq.mp hid)
    have hother := (hshape rfl).2.2 'a' (by
      rw [hnamed]
      decide)
    exact ⟨e, e', disk', hstart, hline, hnamed, hlabel, hdol, hsame, hother⟩

end

end Engine

end LineEditor
