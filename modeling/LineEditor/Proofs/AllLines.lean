import LineEditor.Proofs.LineByLine

/-!
# Substituting in all lines

A substitution in the whole window works out on the lines as they are what becomes of them, and is
refused as a whole. A global command with that substitution goes from one line to the next, and the
window grows under it. Where no line has tokens, both are refused together, or they leave the same
engine.
-/

namespace LineEditor

namespace Engine

/-- How a substitution in all lines comes out, once the record is `undo` and the pool with it is
`p`. -/
structure SubstitutesAll (e : Engine) (undo : UndoSlot) (p : Pool) (source body : List Char)
    (which : Occurrence) (answer : Except EditError Report) (e' : Engine) : Prop where
  ok_iff : (∃ report, answer = .ok report) ↔ e.interrupted = false ∧ ∃ request template,
    SubstituteRequest.settle e.window e.window.lastReplacement source body which =
      .ok (request, template) ∧
    Rewriting.Possible (e.ruleOf request) (e.pool.texts e.window.lines) e.window.dol e.limits.lines
  leaves : (∃ report, answer = .ok report) → ∀ request template,
    SubstituteRequest.settle e.window e.window.lastReplacement source body which =
      .ok (request, template) →
    ((e.recorded undo p).window.markChanged.remember source template).reviseLines p 0
        (Rewriting.changes (e.ruleOf request) 1 (e.pool.texts e.window.lines)) =
          .ok (e'.window, e'.pool) ∧
      e' = { (e.recorded undo p).setWindow e'.window with pool := e'.pool }

section
variable {e e' e'' : Engine} {undo : UndoSlot} {p : Pool} {source body : List Char}
  {which : Occurrence} {answer answer' : Except EditError Report}

/-- That says all there is to say of what is left. -/
theorem SubstitutesAll.unique (h : e.SubstitutesAll undo p source body which answer e')
    (h' : e.SubstitutesAll undo p source body which answer' e'') :
    ((∃ report, answer = .ok report) ↔ ∃ report, answer' = .ok report) ∧
      ((∃ report, answer = .ok report) → e' = e'') := by
  have hiff := h.ok_iff.trans h'.ok_iff.symm
  refine ⟨hiff, fun hok => ?_⟩
  obtain ⟨-, request, template, hsettle, -⟩ := h.ok_iff.mp hok
  obtain ⟨hlines, heq⟩ := h.leaves hok request template hsettle
  obtain ⟨hlines', heq'⟩ := h'.leaves (hiff.mp hok) request template hsettle
  obtain ⟨hwindow, hpool⟩ := Prod.mk.inj (Except.ok.inj (hlines.symm.trans hlines'))
  rw [heq, heq', hwindow, hpool]

/-- A substitution that is refused when it has to be. -/
theorem SubstitutesAll.refused (h : e.interrupted = false → ∀ request template,
    SubstituteRequest.settle e.window e.window.lastReplacement source body which =
      .ok (request, template) →
    ¬Rewriting.Possible (e.ruleOf request) (e.pool.texts e.window.lines) e.window.dol e.limits.lines)
    (err : EditError) (e' : Engine) :
    e.SubstitutesAll undo p source body which (.error err) e' where
  ok_iff := ⟨by rintro ⟨_, ⟨⟩⟩, fun ⟨hcalm, request, template, hsettle, hposs⟩ =>
    absurd hposs (h hcalm request template hsettle)⟩
  leaves := by rintro ⟨_, ⟨⟩⟩

theorem SubstitutesAll.stopped (h : e.interrupted = true) (err : EditError) (e' : Engine) :
    e.SubstitutesAll undo p source body which (.error err) e' :=
  .refused (fun hcalm => absurd (h.symm.trans hcalm) (by simp)) err e'

theorem SubstitutesAll.unsettled {cause : EditError}
    (h : SubstituteRequest.settle e.window e.window.lastReplacement source body which = .error cause)
    (err : EditError) (e' : Engine) :
    e.SubstitutesAll undo p source body which (.error err) e' := by
  refine .refused (fun _ request template hok => ?_) err e'
  rw [h] at hok
  cases hok

theorem SubstitutesAll.impossible {request : SubstituteRequest} {template : List Char}
    (h : SubstituteRequest.settle e.window e.window.lastReplacement source body which =
      .ok (request, template))
    (hnot : ¬Rewriting.Possible (e.ruleOf request) (e.pool.texts e.window.lines) e.window.dol
      e.limits.lines) (err : EditError) (e' : Engine) :
    e.SubstitutesAll undo p source body which (.error err) e' := by
  refine .refused (fun _ request' template' hok => ?_) err e'
  obtain ⟨rfl, rfl⟩ := Prod.mk.inj (Except.ok.inj (h.symm.trans hok))
  exact hnot

/-- All lines of a window are a range. -/
theorem linesIn_all (e : Engine) (given : Nat) :
    e.linesIn ⟨1, e.window.dol, given⟩ = e.pool.texts e.window.lines := by
  have hlen : (e.pool.texts e.window.lines).length = e.window.dol := Pool.length_texts _ _
  refine List.take_of_length_le ?_
  show (List.drop 0 _).length ≤ e.window.dol - 1 + 1
  rw [List.drop_zero]
  omega

end

end Engine

/-! ## All at once -/

namespace EditM

theorem carryOut_recorded (change : Edit) (shape : Bool) (print : Option PrintStyle) :
    carryOut false (.edit change shape print) =
      snapshot >>= fun _ => carryOut true (.edit change shape print) := rfl

section
variable {e : Engine} {undo : UndoSlot} {p : Pool}

/-- What was planned for all lines is carried out, and that is all that is done. -/
theorem carryOut_all (h : e.Ready) (hmode : e.window.mode = .normal) (hcalm : e.interrupted = false)
    (hrecorded : e.RecordedAs undo p) {source template body : List Char} {which : Occurrence}
    {request : SubstituteRequest}
    (hsettle : SubstituteRequest.settle e.window e.window.lastReplacement source body which =
      .ok (request, template))
    (hposs : Rewriting.Possible (e.ruleOf request) (e.pool.texts e.window.lines) e.window.dol
      e.limits.lines) (shape : Bool) (print : Option PrintStyle) :
    Ends (carryOut false (.edit (.revise (Rewriting.changes (e.ruleOf request) 1
      (e.pool.texts e.window.lines))) shape print)) (e.setWindow (e.window.remember source template))
        (e.SubstitutesAll undo p source body which) := by
  have hnoted : (e.setWindow (e.window.remember source template)).Ready :=
    h.withRecall ⟨some source, some template, e.interrupted⟩
  have hlen : (e.pool.texts e.window.lines).length = e.window.dol := Pool.length_texts _ _
  have hsnap := (snapshot_ends hnoted.toSound hnoted.untyped hnoted.calm).and
    (hrecorded (e.window.remember source template) rfl rfl rfl rfl rfl).leads
  rw [carryOut_recorded]
  refine hsnap.then ?_ fun _ _ hf => hf.1.elim
  rintro _ s ⟨⟨hrec, -⟩, rfl⟩
  have hfit : (Edit.revise (Rewriting.changes (e.ruleOf request) 1
      (e.pool.texts e.window.lines))).Fits e.window.dol :=
    Rewriting.changes_fit _ (Nat.le_refl 1) (by omega)
  refine (carryOut_inside_ends hrec.sound hrec.untyped hfit shape print).of_sure ?_
  rintro report _ ⟨-, -, -, w, q, hrun, rfl⟩
  refine ⟨⟨fun _ => ⟨hcalm, request, template, hsettle, hposs⟩, fun _ => ⟨report, rfl⟩⟩,
    fun _ request' template' hsettle' => ?_⟩
  obtain ⟨rfl, rfl⟩ := Prod.mk.inj (Except.ok.inj (hsettle.symm.trans hsettle'))
  have hlines := Window.overlay_markChanged.reviseLines _ hrun
  obtain ⟨dot, lines, labels, last, rfl⟩ := Window.reviseLines_frame _ hrun
  rw [Window.noteEdit_of_normal (by exact hmode)]
  exact ⟨hlines, rfl⟩

variable {written replacing source body : List Char}
  (hp : Delimited.scan '/' (written ++ ['/']) = ⟨source, [], true⟩) (hsource : source ≠ [])
  (ht : Delimited.scan '/' (replacing ++ ['/']) = ⟨body, [], true⟩)
include hp hsource ht

theorem runLine_all (h : e.Ready) (hmode : e.window.mode = .normal) (hsome : 1 ≤ e.window.dol)
    (hrecorded : e.RecordedAs undo p) (given : Nat) (all : Bool) :
    Ends (runLine false (some .substitute) ⟨1, e.window.dol, given⟩
      ('/' :: (written ++ '/' :: (replacing ++ '/' :: SubstituteRequest.flagsOf all)))) e
      (e.SubstitutesAll undo p source body (SubstituteRequest.whichOf all)) := by
  have hresolve : resolveSearch e.window.lastSearch source = .ok source :=
    if_neg (by simpa using hsource)
  unfold runLine
  rw [ends_bind]
  cases hi : e.interrupted with
  | true =>
    refine (planSubstitute_stops hp ht hresolve hi _ all).mono ?_
    rintro _ e₁ ⟨err, rfl⟩
    exact .stopped hi err e₁
  | false =>
    refine (planSubstitute_plans hp ht hresolve h.toHeld hi hsome all).mono fun answer e₁ hplans => ?_
    unfold Engine.Plans at hplans
    cases hsettle : SubstituteRequest.settle e.window e.window.lastReplacement source body
      (SubstituteRequest.whichOf all) with
    | error err =>
      rw [hsettle] at hplans
      subst hplans
      exact .unsettled hsettle err e₁
    | ok found =>
      obtain ⟨request, template⟩ := found
      rw [hsettle] at hplans
      obtain ⟨rfl, hplans⟩ := hplans
      rw [e.linesIn_all] at hplans
      cases answer with
      | ok plan =>
        obtain ⟨hposs, shape, rfl⟩ := hplans
        exact carryOut_all h hmode hi hrecorded hsettle hposs shape none
      | error err => exact .impossible hsettle hplans.1 err _

end

end EditM

/-! ## One line after the other -/

theorem SubstituteRequest.subcommandOf_again (replacing : List Char) (all : Bool) :
    GlobalRequest.subcommandOf (again replacing all) = again replacing all := by
  have htrim : Unicode.trim (again replacing all) = again replacing all := by
    have hspace : Unicode.isSpace 's' = false ∧ Unicode.isSpace '/' = false ∧
        Unicode.isSpace 'g' = false := by decide +kernel
    cases all with
    | false => exact Unicode.trim_cons_append ('/' :: '/' :: replacing) hspace.1 hspace.2.1
    | true =>
      have hlast := Unicode.trim_cons_append ('/' :: '/' :: (replacing ++ ['/'])) hspace.1 hspace.2.2
      simpa [again, flagsOf] using hlast
  unfold GlobalRequest.subcommandOf
  rw [htrim]
  rfl

theorem GlobalRequest.parse_refused {v : View} {inverted : Bool} {range : LineRange}
    {tail source : List Char} {delimiter : Char} {pattern : Delimited} {r : Recall}
    (hpattern : Delimited.first tail = .ok (delimiter, pattern))
    (hsource : resolveSearch r.search pattern.body = .ok source)
    (hbad : r.interrupted = true ∨ ∃ err, v.window.compile source false = .error err) :
    Ends (parse v inverted range tail) r fun answer _ => ∃ err, answer = .error err := by
  unfold parse
  rw [Delimited.lift_readFirst, ends_bind, ends_liftExcept, hpattern, Post.after_ok]
  dsimp only
  rw [Query.ends_resolve_bind hsource, ends_bind, ends_liftExcept]
  cases hmatcher : v.window.compile source false with
  | error err => exact ⟨err, rfl⟩
  | ok matcher =>
    rw [Post.after_ok, Query.ends_remember_bind]
    rcases hbad with hset | ⟨err, herr⟩
    · rw [Query.ends_checkInterrupt_bind, if_pos (by exact hset)]
      exact ⟨_, rfl⟩
    · rw [hmatcher] at herr
      cases herr

/-- When all lines are marked as told, each row has the mark of its text. -/
theorem Engine.marked_all {e : Engine} (hsome : 1 ≤ e.window.dol) (hit : Bytes → Bool)
    (subcommand : List Char) (given : Nat) {row : Row}
    (hrow : row ∈ e.markedRows ⟨1, e.window.dol, given⟩
      ⟨subcommand, (e.pool.texts e.window.lines).map hit⟩) : row.marked = hit row.text := by
  have hlen : (e.pool.texts e.window.lines).length = e.window.dol := Pool.length_texts _ _
  have hrun : Sequence.run (e.pool.texts e.window.lines) 1 e.window.dol =
      e.pool.texts e.window.lines := e.linesIn_all given
  have hflags : (e.markedRows ⟨1, e.window.dol, given⟩
      ⟨subcommand, (e.pool.texts e.window.lines).map hit⟩).map Row.marked =
        ((e.pool.texts e.window.lines).zipIdx 1).map (Sequence.doomed 1 e.window.dol hit) :=
    map_marked_markedRows (Nat.le_refl 1) ⟨hsome, Nat.le_refl _⟩ (by rw [hrun])
  rw [Sequence.map_doomed hit (Nat.le_refl 1) hsome (by omega), hrun, hlen, Nat.sub_self,
    Nat.sub_self] at hflags
  have hmarks : (e.markedRows ⟨1, e.window.dol, given⟩
      ⟨subcommand, (e.pool.texts e.window.lines).map hit⟩).map Row.marked =
        ((e.markedRows ⟨1, e.window.dol, given⟩
          ⟨subcommand, (e.pool.texts e.window.lines).map hit⟩).map Row.text).map hit := by
    rw [map_text_markedRows]
    simpa using hflags
  rw [List.map_map] at hmarks
  exact List.map_inj_left.mp hmarks row hrow

namespace Rewriting

section
variable {rule : Bytes → Revision} {rows : List Row}
  (hmatch : ∀ row ∈ rows, row.marked = true ↔ rule row.text ≠ .unchanged)
include hmatch

/-- Only lines with a match can be refused what they would become. -/
theorem passes_iff : (∀ row ∈ rows, row.marked = true → (rule row.text).Passes row.text) ↔
    ∀ line ∈ rows.map Row.text, (rule line).Passes line := by
  rw [List.forall_mem_map]
  refine ⟨fun hall row hrow => ?_, fun hall row hrow _ => hall row hrow⟩
  by_cases hm : row.marked = true
  · exact hall row hrow hm
  · rw [not_not.mp (mt (hmatch row hrow).mpr hm)]
    trivial

theorem growth_all : growth (pending rule 1 rows) = added rule (rows.map Row.text) := by
  refine growth_pending fun row hrow hm => ?_
  rw [not_not.mp (mt (hmatch row hrow).mpr (by simp [hm]))]
  rfl

theorem pending_all (hall : ∀ row ∈ rows, row.marked = true → (rule row.text).Passes row.text) :
    pending rule 1 rows = changes rule 1 (rows.map Row.text) := by
  refine pending_eq_changes fun row hrow => ?_
  cases hm : row.marked with
  | true =>
    refine ((Bool.not_eq_false _).mp fun hkept => ?_).symm
    exact (hmatch row hrow).mp hm (Revision.eq_unchanged (hall row hrow hm) hkept)
  | false =>
    rw [not_not.mp (mt (hmatch row hrow).mpr (by simp [hm]))]
    rfl

end

end Rewriting

/-- On a line without tokens, marking goes by what the line is. -/
theorem Matcher.marks_plain {matcher : Matcher} {line : Bytes} (h : Markup.tokens line = []) :
    matcher.marks false line = matcher.isMatch line := by
  rw [marks, Markup.display_of_tokens_eq_nil h, Bool.bne_false]

namespace Engine

/-- The engine in which a walk begins: the window was recorded as it is in `e`, and just the lines
that match are marked. -/
structure MarkedFor (e : Engine) (undo : UndoSlot) (p : Pool) (source : List Char)
    (matcher : Matcher) (s : Engine) : Prop extends s.Sound where
  untyped : s.entry = none
  eq : s = (e.recorded undo p).setWindow s.window
  window_eq : s.window = { e.window with
    lastSearch := some source
    lines := s.window.lines
    flags.hasUndo := true }
  lines_eq : s.window.lines.clearMarks = e.window.lines
  texts_eq : s.rows.map Row.text = e.pool.texts e.window.lines
  marked_eq : ∀ row ∈ s.rows, row.marked = matcher.isMatch row.text

section
variable {e s s' : Engine} {undo : UndoSlot} {p : Pool} {source body template : List Char}
  {matcher : Matcher} {which : Occurrence} {all : Bool} {request : SubstituteRequest}

theorem MarkedFor.settle_eq (h : e.MarkedFor undo p source matcher s) :
    SubstituteRequest.settle s.window s.window.lastReplacement source body which =
      SubstituteRequest.settle e.window e.window.lastReplacement source body which := by
  rw [h.window_eq]
  rfl

theorem MarkedFor.due (h : e.MarkedFor undo p source matcher s) (hmode : e.window.mode = .normal)
    (hcalm : e.interrupted = false) (hsettle : SubstituteRequest.settle e.window
      e.window.lastReplacement source body which = .ok (request, template)) :
    s.Due source body which request template where
  toSound := h.toSound
  untyped := h.untyped
  normal := by
    rw [h.window_eq]
    exact hmode
  calm := by
    rw [h.eq]
    exact hcalm
  search_eq := by rw [h.window_eq]
  settles := h.settle_eq.trans hsettle

/-- What is remembered of the substitution in the end would be remembered of it at once. -/
theorem MarkedFor.settled_eq (h : e.MarkedFor undo p source matcher s) :
    s.window.settled source template =
      (e.recorded undo p).window.markChanged.remember source template := by
  have hclear : s.window.clearMarks = { e.window with
      lastSearch := some source
      flags.hasUndo := true } := by
    unfold Window.clearMarks
    rw [h.lines_eq, h.window_eq]
  unfold Window.settled
  rw [hclear]
  rfl

theorem MarkedFor.dol_eq (h : e.MarkedFor undo p source matcher s) : s.window.dol = e.window.dol := by
  have hlen := congrArg List.length h.lines_eq
  rwa [LineMap.clearMarks, List.length_map] at hlen

/-- Just the lines without a match stay as they are. -/
theorem unchanged_iff (hmatcher : e.window.compile source false = .ok matcher)
    (hsettle : SubstituteRequest.settle e.window e.window.lastReplacement source body
      (SubstituteRequest.whichOf all) = .ok (request, template)) (line : Bytes) :
    e.ruleOf request line = .unchanged ↔ matcher.isMatch line = false := by
  have hm := SubstituteRequest.settle_bounded hsettle
  obtain ⟨-, hcompile, -, hrequest⟩ := SubstituteRequest.settle_eq_ok.mp hsettle
  obtain rfl := Except.ok.inj (hmatcher.symm.trans hcompile)
  have hfirst : request.which.wants 1 = true := by
    rw [hrequest]
    cases all <;> rfl
  exact request.revision_eq_unchanged_iff hm hfirst _ line

variable {replacing : List Char} {origins origins' : Origins} {last : Option Nat}
  {visits : List Visit} {outcome : Except EditError Report}

/-- The walk rewrites all lines that match, if they can be rewritten all at once. -/
theorem MarkedFor.finishes (h : e.MarkedFor undo p source matcher s)
    (ht : Delimited.scan '/' (replacing ++ ['/']) = ⟨body, [], true⟩)
    (hmode : e.window.mode = .normal) (hcalm : e.interrupted = false)
    (hmatcher : e.window.compile source false = .ok matcher)
    (hsettle : SubstituteRequest.settle e.window e.window.lastReplacement source body
      (SubstituteRequest.whichOf all) = .ok (request, template))
    (hpresent : ∃ row ∈ s.rows, row.marked = true)
    (hwalk : Walk (SubstituteRequest.again replacing all) s origins 1 last visits outcome s'
      origins') :
    e.SubstitutesAll undo p source body (SubstituteRequest.whichOf all) outcome
      (s'.setWindow s'.window.clearMarks) := by
  have hmatch : ∀ row ∈ s.rows, row.marked = true ↔ e.ruleOf request row.text ≠ .unchanged := by
    intro row hrow
    rw [h.marked_eq row hrow, ne_eq, unchanged_iff hmatcher hsettle, Bool.not_eq_false]
  have hlimits : s.limits = e.limits := by
    rw [h.eq]
    rfl
  have hrule : s.ruleOf request = e.ruleOf request := by
    unfold ruleOf
    rw [hlimits]
  have hlimit : s.limits.lines = e.limits.lines := congrArg Limits.lines hlimits
  have hrevises := hwalk.revises ht (h.due hmode hcalm hsettle) hrule hlimit (by simp)
    fun row hrow => (hmatch row hrow).mp
  have hgrowth := Rewriting.growth_all hmatch
  rw [h.texts_eq] at hgrowth
  unfold Finishes at hrevises
  rw [hgrowth, h.dol_eq] at hrevises
  cases outcome with
  | error err =>
    refine .impossible hsettle (fun hposs => ?_) err _
    exact hrevises ⟨(Rewriting.passes_iff hmatch).mpr (h.texts_eq ▸ hposs.passes), hposs.room⟩
  | ok report =>
    obtain ⟨hpasses, hroom, hrevised, hclear⟩ := hrevises
    have hreplaces : ∃ line ∈ e.pool.texts e.window.lines,
        (e.ruleOf request line).isReplaced = true := by
      obtain ⟨row, hrow, hmark⟩ := hpresent
      refine ⟨row.text, h.texts_eq ▸ List.mem_map_of_mem hrow,
        (Bool.not_eq_false _).mp fun hkept => ?_⟩
      exact (hmatch row hrow).mp hmark (Revision.eq_unchanged (hpasses row hrow hmark) hkept)
    have hpending := Rewriting.pending_all hmatch hpasses
    rw [h.texts_eq] at hpending
    have hne : Rewriting.pending (e.ruleOf request) 1 s.rows ≠ [] := by
      rw [hpending]
      intro hnil
      obtain ⟨line, hline, hreplaced⟩ := hreplaces
      rw [Rewriting.changes_eq_nil_iff.mp hnil line hline] at hreplaced
      cases hreplaced
    have hposs : Rewriting.Possible (e.ruleOf request) (e.pool.texts e.window.lines) e.window.dol
        e.limits.lines :=
      ⟨h.texts_eq ▸ (Rewriting.passes_iff hmatch).mp hpasses, hreplaces, hroom hne⟩
    refine ⟨⟨fun _ => ⟨hcalm, request, template, hsettle, hposs⟩, fun _ => ⟨report, rfl⟩⟩,
      fun _ request' template' hok => ⟨?_, ?_⟩⟩
    · obtain ⟨rfl, rfl⟩ := Prod.mk.inj (Except.ok.inj (hsettle.symm.trans hok))
      have hlines := hrevised.lines_eq
      have hpool : s.pool = p := by
        rw [h.eq]
        rfl
      rwa [hpending, hclear (.inl hne), h.settled_eq, hpool] at hlines
    · rw [hrevised.engine_eq, h.eq]
      rfl

end

end Engine

namespace EditM

section
variable {e : Engine} {undo : UndoSlot} {p : Pool} {source : List Char}

/-- Before the walk begins, the window is recorded and the lines are marked. -/
theorem walkGlobal_of_marked (h : e.Ready) (hsome : 1 ≤ e.window.dol)
    (hplain : ∀ line ∈ e.pool.texts e.window.lines, Markup.tokens line = [])
    (hrecorded : e.RecordedAs undo p) (matcher : Matcher) (subcommand : List Char) (given : Nat)
    {post : Post Engine Report}
    (hpost : ∀ s visits outcome last origins, e.MarkedFor undo p source matcher s →
      Walk subcommand s ((List.range s.rows.length).map some) 1 none visits outcome last origins →
        post outcome (last.setWindow last.window.clearMarks)) :
    Ends (walkGlobal ⟨1, e.window.dol, given⟩ ⟨subcommand,
      (e.pool.texts e.window.lines).map (matcher.marks false)⟩)
        (e.withRecall { e.remembered with search := some source }) post := by
  have h₁ := h.withRecall { e.remembered with search := some source }
  obtain ⟨lines, hlines⟩ : ∃ lines, lines = e.window.lines.markRun (1 - 1)
      ((e.pool.texts e.window.lines).map (matcher.marks false)) := ⟨_, rfl⟩
  have hmarks : lines.clearMarks = e.window.lines.clearMarks := by
    rw [hlines]
    exact e.window.lines.clearMarks_markRun _ _
  have hsnap := hrecorded { e.window with lastSearch := some source, lines := lines } rfl rfl rfl rfl
    hmarks
  obtain ⟨⟨answer, s⟩, -, hboth⟩ := (snapshot_ends (h₁.toSound.of_marks hmarks) h₁.untyped
    h₁.calm).and hsnap.leads
  cases answer with
  | error err => exact hboth.1.elim
  | ok _ =>
    obtain ⟨⟨hrec, hwindow, -⟩, rfl⟩ := hboth
    have hrows : ((e.recorded undo p).setWindow { e.window with
        lastSearch := some source
        lines := lines
        flags.hasUndo := true }).rows = e.markedRows ⟨1, e.window.dol, given⟩
          ⟨subcommand, (e.pool.texts e.window.lines).map (matcher.marks false)⟩ := by
      unfold Engine.rows Engine.markedRows
      rw [hwindow, ← hlines]
      exact Pool.rows_congr hrec.keeps
    refine walkGlobal_of_snapshot (hlines ▸ hsnap) hrec.sound hrec.untyped
      fun visits outcome last origins hwalk _ => hpost _ visits outcome last origins ?_ hwalk
    have htexts := (congrArg (List.map Row.text) hrows).trans (e.map_text_markedRows _ _)
    refine ⟨hrec.sound, hrec.untyped, rfl, rfl, hmarks.trans h.unmarked.clearMarks_eq, htexts,
      fun row hrow => ?_⟩
    have hmem : row.text ∈ e.pool.texts e.window.lines := htexts ▸ List.mem_map_of_mem hrow
    rw [hrows] at hrow
    rw [Engine.marked_all hsome _ _ _ hrow, Matcher.marks_plain (hplain _ hmem)]

variable {replacing body : List Char} (ht : Delimited.scan '/' (replacing ++ ['/']) = ⟨body, [], true⟩)
include ht

theorem walkGlobal_all (h : e.Ready) (hmode : e.window.mode = .normal)
    (hcalm : e.interrupted = false) (hsome : 1 ≤ e.window.dol)
    (hplain : ∀ line ∈ e.pool.texts e.window.lines, Markup.tokens line = [])
    (hrecorded : e.RecordedAs undo p) {matcher : Matcher}
    (hmatcher : e.window.compile source false = .ok matcher)
    (hany : (e.pool.texts e.window.lines).any (matcher.marks false) = true) (given : Nat)
    (all : Bool) :
    Ends (walkGlobal ⟨1, e.window.dol, given⟩ ⟨SubstituteRequest.again replacing all,
      (e.pool.texts e.window.lines).map (matcher.marks false)⟩)
        (e.withRecall { e.remembered with search := some source })
        (e.SubstitutesAll undo p source body (SubstituteRequest.whichOf all)) := by
  refine walkGlobal_of_marked h hsome hplain hrecorded matcher _ given
    fun s visits outcome last origins hmarked hwalk => ?_
  have hpresent : ∃ row ∈ s.rows, row.marked = true := by
    obtain ⟨line, hline, hmatch⟩ := List.any_eq_true.mp hany
    rw [Matcher.marks_plain (hplain line hline)] at hmatch
    obtain ⟨row, hrow, rfl⟩ := List.mem_map.mp (hmarked.texts_eq ▸ hline :
      line ∈ s.rows.map Row.text)
    exact ⟨row, hrow, (hmarked.marked_eq row hrow).trans hmatch⟩
  cases hsettle : SubstituteRequest.settle e.window e.window.lastReplacement source body
    (SubstituteRequest.whichOf all) with
  | ok found =>
    exact hmarked.finishes ht hmode hcalm hmatcher hsettle hpresent hwalk
  | error err =>
    have hsearch : s.window.lastSearch = some source := by rw [hmarked.window_eq]
    have hnormal : s.window.mode = .normal := by
      rw [hmarked.window_eq]
      exact hmode
    have hstill : s.interrupted = false := by
      rw [hmarked.eq]
      exact hcalm
    obtain ⟨err', rfl⟩ := hwalk.refused ht hmarked.toSound hnormal hstill hsearch
      (hmarked.settle_eq.trans hsettle) hpresent
    exact .unsettled hsettle err' _

theorem runGlobal_all {written : List Char}
    (hp : Delimited.scan '/' (written ++ ['/']) = ⟨source, [], true⟩) (hsource : source ≠ [])
    (h : e.Ready) (hmode : e.window.mode = .normal) (hsome : 1 ≤ e.window.dol)
    (hplain : ∀ line ∈ e.pool.texts e.window.lines, Markup.tokens line = [])
    (hrecorded : e.RecordedAs undo p) (given : Nat) (all : Bool) :
    Ends (runGlobal false ⟨1, e.window.dol, given⟩
      ('/' :: (written ++ '/' :: SubstituteRequest.again replacing all))) e
        (e.SubstitutesAll undo p source body (SubstituteRequest.whichOf all)) := by
  have hpattern : Delimited.first ('/' :: (written ++ '/' :: SubstituteRequest.again replacing all)) =
      .ok ('/', ⟨source, SubstituteRequest.again replacing all, true⟩) := by
    rw [Delimited.first_slash, Delimited.scan_append written hp]
  have hresolve : resolveSearch e.window.lastSearch source = .ok source :=
    if_neg (by simpa using hsource)
  have hbad (hbad : e.interrupted = true ∨ ∃ err, e.window.compile source false = .error err) :
      Ends (runGlobal false ⟨1, e.window.dol, given⟩
        ('/' :: (written ++ '/' :: SubstituteRequest.again replacing all))) e
          (e.SubstitutesAll undo p source body (SubstituteRequest.whichOf all)) := by
    rw [runGlobal_eq, ends_bind, ends_query]
    refine (GlobalRequest.parse_refused hpattern hresolve hbad).mono ?_
    rintro _ r ⟨err, rfl⟩
    refine .refused (fun hcalm request template hsettle => ?_) err _
    rcases hbad with hset | ⟨err', herr⟩
    · exact absurd (hset.symm.trans hcalm) (by simp)
    · obtain ⟨-, hcompile, -⟩ := SubstituteRequest.settle_eq_ok.mp hsettle
      rw [herr] at hcompile
      cases hcompile
  cases hi : e.interrupted with
  | true => exact hbad (.inl hi)
  | false =>
    cases hmatcher : e.window.compile source false with
    | error err => exact hbad (.inr ⟨err, hmatcher⟩)
    | ok matcher =>
      have hall : Sequence.run (e.pool.texts e.window.lines) 1 e.window.dol =
          e.pool.texts e.window.lines := e.linesIn_all given
      refine runGlobal_ends h.toSound hmode hi hsome hpattern hresolve hmatcher false
        (fun hany => ?_) fun hnone => .refused (fun _ request template hsettle hposs => ?_) _ _
      · rw [hall] at hany ⊢
        rw [SubstituteRequest.subcommandOf_again]
        exact walkGlobal_all ht h hmode hi hsome hplain hrecorded hmatcher hany given all
      · refine Rewriting.not_all_unchanged hposs.replaces fun line hline => ?_
        rw [hall] at hnone
        have hmiss : matcher.marks false line = false :=
          Bool.eq_false_iff.mpr (List.any_eq_false.mp hnone line hline)
        rw [Matcher.marks_plain (hplain line hline)] at hmiss
        exact (Engine.unchanged_iff hmatcher hsettle line).mpr hmiss

end

end EditM

/-! ## Both come to the same -/

namespace Engine

section
variable {e e' : Engine} {undo : UndoSlot} {p : Pool} {source body : List Char} {which : Occurrence}
  {answer : Except EditError Report}

theorem located_whole (hsome : 1 ≤ e.window.dol) (tail : List Char) :
    e.located ⟨some (.line .substitute), .whole, tail⟩ =
      some (⟨1, e.window.dol, 2⟩, { e with quitArmed := false }) := by
  have hmin : min e.window.dol 1 = 1 := Nat.min_eq_right hsome
  have hgiven : e.view.range .whole = pure (some ⟨1, e.window.dol, 2⟩) := by
    unfold View.range View.ordered
    rw [show e.view.window = e.window from rfl, hmin]
    exact if_neg (Nat.not_lt.mpr hsome)
  exact located_of_range hgiven rfl rfl tail

theorem located_everywhere (hsome : 1 ≤ e.window.dol) (tail : List Char) :
    e.located ⟨some (.global false), .default, tail⟩ =
      some (⟨1, e.window.dol, 0⟩, { e with quitArmed := false }) := by
  have hmin : min e.window.dol 1 = 1 := Nat.min_eq_right hsome
  have hrange : effectiveRange e.window.dot e.window.dol false (some (.global false)) none =
      .ok ⟨1, e.window.dol, 0⟩ := by
    unfold effectiveRange defaultRange
    dsimp only
    rw [hmin]
    exact if_neg (Nat.lt_irrefl _)
  exact located_of_range rfl hrange rfl tail

/-- What a substitution in all lines has done can be undone. -/
theorem SubstitutesAll.dispatchOn_undo (h : e.SubstitutesAll undo p source body which answer e')
    (hready : e.Ready) (hok : ∃ report, answer = .ok report) (hsteady : e'.Steady) {r : UndoRecord}
    (hr : undo.record = some r) (hid : r.window = e.window.id) (s : Storage σ) (disk : σ) :
    e'.dispatchOn s ['u'] disk = .ok (.ok (.ofSwitch []), e'.undone r, disk) := by
  obtain ⟨-, request, template, hsettle, -⟩ := h.ok_iff.mp hok
  obtain ⟨hlines, heq⟩ := h.leaves hok request template hsettle
  obtain ⟨dot, lines, labels, last, hwindow⟩ := Window.reviseLines_frame _ hlines
  have huntyped : e'.entry = none := by
    rw [heq]
    exact hready.untyped
  have hcalm : e'.quitArmed = false := by
    rw [heq]
    exact hready.calm
  have hundo : e'.session.undo.record = some r := by
    rw [heq]
    exact hr
  have hsame : e'.window.id = e.window.id := by
    rw [hwindow]
    rfl
  exact Engine.dispatchOn_undo ⟨⟨hsteady, huntyped⟩, hcalm⟩ hundo (hid.trans hsame.symm) s disk

/-- What comes of a substitution in all lines, typed one way or the other. -/
theorem Idle.substitutesAll (h : e.Idle) (hmode : e.window.mode = .normal)
    (hsome : 1 ≤ e.window.dol) (hplain : ∀ line ∈ e.pool.texts e.window.lines, Markup.tokens line = [])
    {written replacing : List Char}
    (hp : Delimited.scan '/' (written ++ ['/']) = ⟨source, [], true⟩) (hsource : source ≠ [])
    (ht : Delimited.scan '/' (replacing ++ ['/']) = ⟨body, [], true⟩) (all : Bool)
    (s : Storage σ) (disk : σ) :
    ∃ undo p answer₁ e₁ answer₂ e₂,
      undo.record = some (UndoSlot.recordOf e.window e.window.lines.clearMarks) ∧
      e.dispatchOn s (',' :: 's' :: '/' :: (written ++ '/' :: (replacing ++ '/' ::
        SubstituteRequest.flagsOf all))) disk = .ok (answer₁, e₁, disk) ∧
      Engine.SubstitutesAll { e with quitArmed := false } undo p source body
        (SubstituteRequest.whichOf all) answer₁ e₁ ∧
      e.dispatchOn s ('g' :: '/' :: (written ++ '/' :: SubstituteRequest.again replacing all)) disk =
        .ok (answer₂, e₂, disk) ∧
      Engine.SubstitutesAll { e with quitArmed := false } undo p source body
        (SubstituteRequest.whichOf all) answer₂ e₂ := by
  have hlast (front : List Char) :
      (front ++ '/' :: SubstituteRequest.flagsOf all).getLast? ≠ some '\n' := by
    rw [List.getLast?_append]
    cases all <;> simp [SubstituteRequest.flagsOf]
  have hasks : e.asks (',' :: 's' :: '/' :: (written ++ '/' :: (replacing ++ '/' ::
      SubstituteRequest.flagsOf all))) = some ⟨some (.line .substitute), .whole,
        '/' :: (written ++ '/' :: (replacing ++ '/' :: SubstituteRequest.flagsOf all))⟩ := by
    refine asks_comma_letter h.untyped (.line .substitute) ?_
    simpa using hlast ('s' :: '/' :: (written ++ '/' :: replacing))
  have hasks' : e.asks ('g' :: '/' :: (written ++ '/' :: SubstituteRequest.again replacing all)) =
      some ⟨some (.global false), .default,
        '/' :: (written ++ '/' :: SubstituteRequest.again replacing all)⟩ := by
    refine asks_letter h.untyped (.global false) ?_
    simpa [SubstituteRequest.again] using
      hlast ('g' :: '/' :: (written ++ '/' :: 's' :: '/' :: '/' :: replacing))
  have hready := h.ready_located rfl (located_whole hsome [])
  obtain ⟨undo, p, hrecord, hrecorded⟩ := hready.toSound.recordedAs
  have hallowed (cmd : Command) : (some cmd).all e.window.mode.allows = true := by
    rw [hmode]
    rfl
  obtain ⟨answer₁, e₁, hrun₁, hall₁⟩ :=
    EditM.dispatchOn_located hasks (located_whole hsome _) (hallowed _) rfl
      (EditM.runLine_all hp hsource ht hready hmode hsome hrecorded 2 all) s disk
  obtain ⟨answer₂, e₂, hrun₂, hall₂⟩ :=
    EditM.dispatchOn_located hasks' (located_everywhere hsome _) (hallowed _) rfl
      (EditM.runGlobal_all ht hp hsource hready hmode hsome hplain hrecorded 0 all) s disk
  exact ⟨undo, p, answer₁, e₁, answer₂, e₂, hrecord, hrun₁, hall₁, hrun₂, hall₂⟩

/-- A substitution in all lines and the global command that makes it in the lines that match are
made or refused together, and leave the same engine if they are made. Then both are undone at
once. -/
theorem Reachable.global_substitutes_alike (h : e.Reachable) (hn : e.entry = none)
    (hmode : e.window.mode = .normal) (hsome : 1 ≤ e.window.dol) {lines : List Bytes}
    (hlines : e.window.texts e.pool 1 e.window.dol = .ok lines)
    (hplain : ∀ line ∈ lines, Markup.tokens line = []) {written replacing : List Char}
    (hp : Delimited.scan '/' (written ++ ['/']) = ⟨source, [], true⟩) (hsource : source ≠ [])
    (ht : Delimited.scan '/' (replacing ++ ['/']) = ⟨body, [], true⟩) (all : Bool)
    (s : Storage σ) (disk : σ) :
    ∃ answer₁ e₁ answer₂ e₂,
      e.dispatchOn s (',' :: 's' :: '/' :: (written ++ '/' :: (replacing ++ '/' ::
        SubstituteRequest.flagsOf all))) disk = .ok (answer₁, e₁, disk) ∧
      e.dispatchOn s ('g' :: '/' :: (written ++ '/' :: 's' :: '/' :: '/' :: (replacing ++ '/' ::
        SubstituteRequest.flagsOf all))) disk = .ok (answer₂, e₂, disk) ∧
      ((∃ report, answer₁ = .ok report) ↔ ∃ report, answer₂ = .ok report) ∧
      ((∃ report, answer₁ = .ok report) → e₂ = e₁ ∧ ∃ e₃,
        e₁.dispatchOn s ['u'] disk = .ok (.ok (.ofSwitch []), e₃, disk) ∧
        e₃.window.lines = e.window.lines ∧ e₃.window.labels = e.window.labels ∧
        e₃.window.dot = e.window.dot ∧
        e₃.window.flags.noFinalNewline = e.window.flags.noFinalNewline) := by
  have hidle : e.Idle := ⟨h.steady, hn⟩
  have htexts : e.pool.texts e.window.lines = lines :=
    Except.ok.inj (hidle.toHeld.texts_eq.symm.trans hlines)
  obtain ⟨undo, p, answer₁, e₁, answer₂, e₂, hrecord, hrun₁, hall₁, hrun₂, hall₂⟩ :=
    hidle.substitutesAll hmode hsome (htexts.symm ▸ hplain) hp hsource ht all s disk
  obtain ⟨hiff, hsame⟩ := hall₁.unique hall₂
  refine ⟨answer₁, e₁, answer₂, e₂, hrun₁, hrun₂, hiff, fun hok => ⟨(hsame hok).symm, ?_⟩⟩
  have hsteady : e₁.Steady := by
    obtain ⟨report, rfl⟩ := hok
    obtain ⟨_, hrun, hsettles⟩ := dispatchOn_settles h.steady s _ disk
    obtain rfl := Except.ok.inj (hrun₁.symm.trans hrun)
    exact hsettles.1
  have hready := hidle.ready_located rfl (located_whole hsome [])
  refine ⟨_, hall₁.dispatchOn_undo hready hok hsteady hrecord rfl s disk, ?_, rfl, rfl, rfl⟩
  exact h.steady.unmarked.clearMarks_eq

/-- Two of three lines are split at all their dashes. The label of the second line moves down with it
by as many lines as the first becomes more. -/
theorem global_substitutes_alike_splitting : ∃ e e₁ report₁ report₂,
    (Engine.new ⟨1, 10, 100⟩).performAll
      [.insertBulk 0 [97, 45, 98, 45, 99, 10, 100, 10, 101, 45, 102, 10],
        .line FileTree.storage .empty ['2', 'k', 'z']] = .ok e ∧
    e.dispatchOn FileTree.storage [',', 's', '/', '-', '/', '\\', 'n', '/', 'g'] .empty =
      .ok (.ok report₁, e₁, .empty) ∧
    e.dispatchOn FileTree.storage ['g', '/', '-', '/', 's', '/', '/', '\\', 'n', '/', 'g'] .empty =
      .ok (.ok report₂, e₁, .empty) ∧ e₁.window.labels.get? 'z' = some 4 := by
  have hall : ((Engine.new ⟨1, 10, 100⟩).performAll
      [.insertBulk 0 [97, 45, 98, 45, 99, 10, 100, 10, 101, 45, 102, 10],
        .line FileTree.storage .empty ['2', 'k', 'z']] >>= fun e => pure (e.entry.isNone &&
      e.window.mode = .normal && !e.interrupted && e.window.dol + 3 ≤ e.limits.lines &&
      e.window.dol = 3 && e.window.labels.get? 'z' = some 2 &&
      e.window.texts e.pool 1 e.window.dol = .ok [[97, 45, 98, 45, 99], [100], [101, 45, 102]] &&
      (SubstituteRequest.settle e.window e.window.lastReplacement ['-'] ['\\', 'n'] .all).toOption.any
        fun found => e.ruleOf found.1 [97, 45, 98, 45, 99] = .replaced [97, 10, 98, 10, 99] &&
          e.ruleOf found.1 [100] = .unchanged &&
          e.ruleOf found.1 [101, 45, 102] = .replaced [101, 10, 102])) = .ok true := by
    decide +kernel
  obtain ⟨e, hnew, hall⟩ := bind_eq_ok.mp hall
  have hvalues := Except.ok.inj hall
  simp only [Bool.and_eq_true, Bool.not_eq_true', decide_eq_true_eq, Option.isNone_iff_eq_none,
    Option.any_eq_true] at hvalues
  obtain ⟨⟨⟨⟨⟨⟨⟨hn, hmode⟩, hcalm⟩, hroom⟩, hdol⟩, hlabel⟩, htexts⟩, ⟨request, template⟩, hsettle,
    ⟨hfirst, hsecond⟩, hthird⟩ := hvalues
  have hreach := (Reachable.new _).performAll hnew
  have hplain : ∀ line ∈ [[97, 45, 98, 45, 99], [100], [101, 45, 102]], Markup.tokens line = [] := by
    decide
  have hp : Delimited.scan '/' (['-'] ++ ['/']) = ⟨['-'], [], true⟩ := by decide
  have ht : Delimited.scan '/' (['\\', 'n'] ++ ['/']) = ⟨['\\', 'n'], [], true⟩ := by decide
  obtain ⟨answer₁, e₁, answer₂, e₂, hrun₁, hrun₂, hiff, hsame⟩ := Reachable.global_substitutes_alike
    hreach hn hmode (by omega) htexts hplain hp (by decide) ht true FileTree.storage .empty
  have hidle : e.Idle := ⟨hreach.steady, hn⟩
  have hl := Except.ok.inj (hidle.toHeld.texts_eq.symm.trans htexts)
  obtain ⟨undo, p, answer, e', _, _, -, hrun, hsub, -⟩ := hidle.substitutesAll hmode (by omega)
    (hl.symm ▸ hplain) hp (by decide) ht true FileTree.storage .empty
  cases hrun₁.symm.trans hrun
  have hfound := toOption_eq_some.mp hsettle
  have hposs : Rewriting.Possible (e.ruleOf request) (e.pool.texts e.window.lines) e.window.dol
      e.limits.lines := by
    rw [hl]
    refine ⟨?_, ⟨_, List.mem_cons_self, by rw [hfirst]; rfl⟩, ?_⟩
    · simp only [List.forall_mem_cons, hfirst, hsecond, hthird]
      exact ⟨rfl, trivial, rfl, List.forall_mem_nil _⟩
    · simp only [Rewriting.added, List.map_cons, hfirst, hsecond, hthird]
      exact hroom
  obtain ⟨report₁, rfl⟩ := hsub.ok_iff.mpr ⟨hcalm, request, template, hfound, hposs⟩
  obtain ⟨report₂, rfl⟩ := hiff.mp ⟨report₁, rfl⟩
  obtain ⟨rfl, -⟩ := hsame ⟨report₁, rfl⟩
  refine ⟨e, e₂, report₁, report₂, hnew, hrun₁, hrun₂, ?_⟩
  have hlabels : e₂.window.labels.get? 'z' = (e.window.labels.get? 'z').map fun m =>
      m + Rewriting.added (e.ruleOf request) ((e.pool.texts e.window.lines).take (m - (1 + 0))) :=
    Rewriting.labels_reviseLines (hsub.leaves ⟨report₁, rfl⟩ request template hfound).1 'z'
  rw [hlabels, hlabel, hl]
  show some (2 + Rewriting.added _ [[97, 45, 98, 45, 99]]) = _
  simp only [Rewriting.added, List.map_cons, hfirst]
  rfl

end

end Engine

end LineEditor
