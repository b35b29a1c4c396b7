import LineEditor.Proofs.Browsing
import LineEditor.Proofs.Categories
import LineEditor.Proofs.Located
import LineEditor.Proofs.ProperTexts
import LineEditor.Proofs.Rewriting

/-!
# Substituting in lines

A substitution is worked out on the lines as they are, and carried out when it is known to be right.
Whatever finds the matches, the command rewrites those lines of its range of which something becomes,
finds no match exactly if every line stays as it is, and leaves all other lines alone.
-/

namespace LineEditor

/-- Lines can be rewritten: none of them may not become what it would, something becomes of one of
them, and there is room for the lines that are added to `size` others. -/
structure Rewriting.Possible (rule : Bytes → Revision) (lines : List Bytes) (size limit : Nat) :
    Prop where
  passes : ∀ line ∈ lines, (rule line).Passes line
  replaces : ∃ line ∈ lines, (rule line).isReplaced = true
  room : size + added rule lines ≤ limit

theorem Rewriting.changes_fit (rule : Bytes → Revision) {lines : List Bytes} {start size : Nat}
    (h₁ : 1 ≤ start) (hsize : start + lines.length ≤ size + 1) :
    (Edit.revise (changes rule start lines)).Fits size := by
  intro c hc
  obtain ⟨hle, hlt, hne⟩ := mem_changes hc
  exact ⟨by omega, by omega, hne⟩

namespace SubstituteRequest

/-- Pattern and replacement between slashes. -/
theorem parse_slash (v : View) (rest : List Char) : parse v ('/' :: rest) = do
    let pattern := Delimited.scan '/' rest
    if !pattern.closed then throw (.malformed .missingReplacement)
    let replacement := Delimited.scan '/' pattern.rest
    let flags ← liftExcept (flags replacement)
    let source ← Query.resolve pattern.body
    let template ← resolveTemplate replacement.body
    let matcher ← liftExcept (v.window.compile source flags.ignoreCase)
    let which := flags.which.getD (.nth 1)
    if Substitution.isAmbiguous matcher which then throw .emptyMatchRepeat
    modify fun r => { r with search := some source, replacement := some template }
    return ⟨matcher, Utf8.ofChars template, which, flags.print⟩ := by
  unfold parse
  rw [Delimited.lift_readFirst, Delimited.first_slash]
  simp only [Delimited.read_bind]
  rfl

/-- What becomes of a line. -/
def revision (r : SubstituteRequest) (limit : Nat) (line : Bytes) : Revision :=
  match Substitution.apply r.matcher r.template r.which limit line with
  | .ok revision => revision
  | .error _ => .unchanged

section
variable {r : SubstituteRequest} (hm : r.matcher.Bounded) (limit : Nat)
include hm

theorem apply_eq_revision (line : Bytes) :
    Substitution.apply r.matcher r.template r.which limit line = .ok (r.revision limit line) := by
  obtain ⟨revision, happly, -⟩ := Substitution.apply_succeeds hm r.template r.which limit line
  unfold SubstituteRequest.revision
  rw [happly]

/-- A line is revised if it passes; else it is not that no match was found. -/
theorem revise_ends (line : Bytes) (s : Recall) :
    Ends (r.revise limit line) s fun answer s' => s' = s ∧ match answer with
      | .ok found => (r.revision limit line).Passes line ∧
        found = if (r.revision limit line).isReplaced then
          some ((r.revision limit line).pieces line) else none
      | .error err => ¬(r.revision limit line).Passes line ∧ err ≠ .noMatch := by
  rw [revise_eq, apply_eq_revision hm, ends_bind, ends_lift, Succeeds.ok_iff, Post.after_ok]
  cases r.revision limit line with
  | unchanged => exact ends_pure.mpr ⟨rfl, trivial, rfl⟩
  | tooLong => exact ends_throw.mpr ⟨rfl, id, by simp⟩
  | replaced new =>
    dsimp only
    split
    · rename_i hsame
      exact ends_pure.mpr ⟨rfl, hsame, rfl⟩
    · rename_i haltered
      exact ends_throw.mpr ⟨rfl, haltered, by simp⟩

/-- The lines from line `start` on are revised, if all of them pass. -/
theorem reviseAll_ends (lines : List Bytes) (start : Nat) (s : Recall) :
    Ends (r.reviseAll limit ((lines.zipIdx start).map fun x => (x.2, x.1))) s
      fun answer s' => s' = s ∧ match answer with
        | .ok found => (∀ line ∈ lines, (r.revision limit line).Passes line) ∧
          found = Rewriting.changes (r.revision limit) start lines
        | .error err => (∃ line ∈ lines, ¬(r.revision limit line).Passes line) ∧
          err ≠ .noMatch := by
  induction lines generalizing start with
  | nil => exact ends_pure.mpr ⟨rfl, by simp, rfl⟩
  | cons line rest ih =>
    rw [List.zipIdx_cons, List.map_cons]
    unfold reviseAll
    refine (revise_ends hm limit line s).then ?_ ?_
    · rintro found _ ⟨rfl, hpass, rfl⟩
      refine (ih (start + 1)).then ?_ ?_
      · rintro changes _ ⟨rfl, hall, rfl⟩
        have hpasses : ∀ text ∈ line :: rest, (r.revision limit text).Passes text :=
          List.forall_mem_cons.mpr ⟨hpass, hall⟩
        cases hr : (r.revision limit line).isReplaced with
        | false => exact ends_pure.mpr ⟨rfl, hpasses, (Rewriting.changes_of_kept hr _ _).symm⟩
        | true => exact ends_pure.mpr ⟨rfl, hpasses, (Rewriting.changes_of_replaced hr _ _).symm⟩
      · rintro err _ ⟨rfl, ⟨later, hmem, hfails⟩, herr⟩
        exact ⟨rfl, ⟨later, List.mem_cons_of_mem _ hmem, hfails⟩, herr⟩
    · rintro err _ ⟨rfl, hfails, herr⟩
      exact ⟨rfl, ⟨line, List.mem_cons_self, hfails⟩, herr⟩

end

end SubstituteRequest

namespace View

/-- What a substitution comes to when its request has been read. -/
def planRevision (v : View) (range : LineRange) (request : SubstituteRequest) : Query Plan := do
  Query.checkInterrupt
  let texts ← v.window.texts v.pool range.start range.stop
  let lines := (texts.zipIdx range.start).map fun (text, n) => (n, text)
  let changes ← request.reviseAll v.limits.lineLength lines
  if changes.isEmpty then throw .noMatch
  let extra ← linesAdded changes
  liftExcept (v.checkCapacity extra)
  return .edit (.revise changes) (0 < extra) request.print

theorem planSubstitute_eq (v : View) (range : LineRange) (tail : List Char) :
    v.planSubstitute range tail = SubstituteRequest.parse v tail >>= v.planRevision range := rfl

end View

namespace Engine

/-- What becomes of a line if the request is made in the engine. -/
def ruleOf (e : Engine) (request : SubstituteRequest) : Bytes → Revision :=
  request.revision e.limits.lineLength

/-- The lines of a range. -/
def linesIn (e : Engine) (range : LineRange) : List Bytes :=
  Sequence.run (e.pool.texts e.window.lines) range.start range.stop

/-- Lines `start` to `stop` of the window, whose lines were `l`, were rewritten. The labels moved
with their lines, those on a line with its first piece, and dot is on the last piece of the last line
of which something else became. -/
structure Rewrote (e e' : Engine) (rule : Bytes → Revision) (l : List Bytes) (start stop : Nat) :
    Prop where
  texts_eq : e'.window.texts e'.pool 1 e'.window.dol = .ok (Rewriting.result rule l start stop)
  dol_eq : e'.window.dol = e.window.dol + Rewriting.added rule (Sequence.run l start stop)
  stands : ∀ n line, 1 ≤ n → l[n - 1]? = some line →
    Rewriting.becomes rule start stop n line <+:
      (Rewriting.result rule l start stop).drop (Rewriting.place rule l start stop n - 1)
  labels_eq : ∀ name, e'.window.labels.get? name =
    (e.window.labels.get? name).map (Rewriting.place rule l start stop)
  dot_eq : ∃ n line, start ≤ n ∧ n ≤ stop ∧ l[n - 1]? = some line ∧ (rule line).isReplaced = true ∧
    (∀ m later, n < m → m ≤ stop → l[m - 1]? = some later → (rule later).isReplaced = false) ∧
    e'.window.dot = Rewriting.place rule l start stop n + (((rule line).pieces line).length - 1)

/-- How a substitution comes out in a window whose lines were `l`. A line has no match to replace if it
stays as it is; one that would grow too long has one, and lets the substitution fail. -/
structure Substitutes (e : Engine) (request : SubstituteRequest) (l : List Bytes) (range : LineRange)
    (answer : Except EditError Report) (e' : Engine) : Prop where
  applies : ∀ line, Substitution.apply request.matcher request.template request.which
    e.limits.lineLength line = .ok (e.ruleOf request line)
  noMatch_iff : answer = .error .noMatch ↔
    ∀ line ∈ Sequence.run l range.start range.stop, e.ruleOf request line = .unchanged
  ok_iff : (∃ report, answer = .ok report) ↔ Rewriting.Possible (e.ruleOf request)
    (Sequence.run l range.start range.stop) e.window.dol e.limits.lines
  rewrote : (∃ report, answer = .ok report) →
    e.Rewrote e' (e.ruleOf request) l range.start range.stop

/-- Where a window was the same, it comes out the same. -/
theorem Substitutes.of_same {e₀ e e' : Engine} {request : SubstituteRequest} {l : List Bytes}
    {range : LineRange} {answer : Except EditError Report}
    (h : e.Substitutes request l range answer e') (hlimits : e.limits = e₀.limits)
    (hdol : e.window.dol = e₀.window.dol) (hlabels : e.window.labels = e₀.window.labels) :
    e₀.Substitutes request l range answer e' := by
  have hrule : e.ruleOf request = e₀.ruleOf request := by
    unfold ruleOf
    rw [hlimits]
  obtain ⟨happlies, hnoMatch, hok, hrewrote⟩ := h
  rw [hrule] at hnoMatch hok hrewrote
  rw [hlimits, hdol] at hok
  refine ⟨fun line => ?_, hnoMatch, hok, fun hreport => ?_⟩
  · rw [← hlimits, ← hrule]
    exact happlies line
  · obtain ⟨htexts, hdol', hstands, hlabels', hdot⟩ := hrewrote hreport
    rw [hdol] at hdol'
    rw [hlabels] at hlabels'
    exact ⟨htexts, hdol', hstands, hlabels', hdot⟩

end Engine

namespace EditM

section
variable {e : Engine} {range : LineRange} {request : SubstituteRequest}

theorem planRevision_ends (h : e.Held) (hs : range.start ≤ range.stop) (hm : request.matcher.Bounded)
    {s : Recall} (hcalm : s.interrupted = false) :
    Ends (e.view.planRevision range request) s fun answer s' => s' = s ∧ match answer with
      | .ok plan => Rewriting.Possible (e.ruleOf request) (e.linesIn range) e.window.dol e.limits.lines ∧
        ∃ shape, plan = .edit (.revise (Rewriting.changes (e.ruleOf request) range.start
          (e.linesIn range))) shape request.print
      | .error err =>
        ¬Rewriting.Possible (e.ruleOf request) (e.linesIn range) e.window.dol e.limits.lines ∧
          (err = .noMatch ↔ ∀ line ∈ e.linesIn range, e.ruleOf request line = .unchanged) := by
  have htexts : e.view.window.texts e.view.pool range.start range.stop = .ok (e.linesIn range) :=
    h.texts_run hs
  unfold View.planRevision
  rw [Query.ends_checkInterrupt_bind, if_neg (by simp [hcalm]), ends_bind, ends_lift, htexts,
    Succeeds.ok_iff, Post.after_ok]
  refine (request.reviseAll_ends hm e.limits.lineLength (e.linesIn range) range.start _).then ?_ ?_
  · rintro changes _ ⟨rfl, hpasses, rfl⟩
    dsimp only
    split
    · rename_i hempty
      have hkept := Rewriting.changes_eq_nil_iff.mp (List.isEmpty_iff.mp hempty)
      have hall : ∀ line ∈ e.linesIn range, e.ruleOf request line = .unchanged := fun line hmem =>
        Revision.eq_unchanged (hpasses line hmem) (hkept line hmem)
      exact ends_throw.mpr ⟨rfl, fun hposs => Rewriting.not_all_unchanged hposs.replaces hall,
        fun _ => hall, fun _ => rfl⟩
    · rename_i hsome
      have hreplaces : ∃ line ∈ e.linesIn range, (e.ruleOf request line).isReplaced = true := by
        by_contra hnone
        refine hsome (List.isEmpty_iff.mpr (Rewriting.changes_eq_nil_iff.mpr fun line hmem => ?_))
        exact Bool.eq_false_iff.mpr fun hr => hnone ⟨line, hmem, hr⟩
      have hadded : View.linesAdded (Rewriting.changes (e.ruleOf request) range.start (e.linesIn range)) =
          .ok (Rewriting.added (e.ruleOf request) (e.linesIn range)) := by
        rw [linesAdded_eq fun c hc => (Rewriting.mem_changes hc).2.2, Rewriting.sum_changes]
      show Ends (liftM (View.linesAdded (Rewriting.changes (e.ruleOf request) _ _)) >>= _) _ _
      rw [ends_bind, ends_lift, hadded, Succeeds.ok_iff, Post.after_ok]
      refine ends_check.mpr ⟨fun hfull => ?_, fun hroom => ?_⟩
      · exact ⟨rfl, fun hposs => Nat.not_le.mpr hfull hposs.room, (by rintro ⟨⟩),
          fun hall => absurd hall (Rewriting.not_all_unchanged hreplaces)⟩
      · exact ends_pure.mpr ⟨rfl, ⟨hpasses, hreplaces, Nat.le_of_not_lt hroom⟩, _, rfl⟩
  · rintro err _ ⟨rfl, ⟨line, hmem, hfails⟩, herr⟩
    refine ⟨rfl, fun hposs => hfails (hposs.passes line hmem), fun heq => absurd heq herr, fun hall => ?_⟩
    have hun : request.revision e.limits.lineLength line = .unchanged := hall line hmem
    rw [hun] at hfails
    exact absurd trivial hfails

/-- The lines of a range become what the rule says. -/
theorem carryOut_revise_ends (h : e.Ready) (h₁ : 1 ≤ range.start) (hr : range.Within e.window.dol)
    {rule : Bytes → Revision} (hsome : ∃ line ∈ e.linesIn range, (rule line).isReplaced = true)
    (shape : Bool) (print : Option PrintStyle) : Ends (carryOut false
      (.edit (.revise (Rewriting.changes rule range.start (e.linesIn range))) shape print)) e
      (.sure fun _ e' => e.Rewrote e' rule (e.pool.texts e.window.lines) range.start range.stop) := by
  generalize hl : e.pool.texts e.window.lines = l
  have hlen : l.length = e.window.dol := by
    rw [← hl]
    exact Pool.length_texts _ _
  have hstop : range.stop ≤ l.length := by
    rw [hlen]
    exact hr.stop_le
  have hlines : e.linesIn range = Sequence.run l range.start range.stop := by rw [← hl]; rfl
  have hrun := Sequence.length_run l h₁ hr.le hstop
  have hs := hr.le
  rw [hlines] at hsome ⊢
  have hfit : (Edit.revise (Rewriting.changes rule range.start
      (Sequence.run l range.start range.stop))).Fits e.window.dol :=
    Rewriting.changes_fit rule h₁ (by omega)
  refine (carryOut_edit_ends h hfit shape print).of_sure fun _ e' hre => ?_
  have htexts : e'.pool.texts e'.window.lines = Rewriting.result rule l range.start range.stop := by
    have hrows : (e.pool.rows e.window.lines).map Row.text = l := hl
    rw [Pool.texts, hre.rows_eq, ← hrows]
    exact Rewriting.texts_reviseRun rule _ h₁ hs (by rwa [← List.length_map (f := Row.text), hrows])
  have hdol : e'.window.dol = e.window.dol +
      Rewriting.added rule (Sequence.run l range.start range.stop) := by
    rw [← hlen, ← Rewriting.length_result h₁ hs hstop, ← htexts, Pool.length_texts]
    rfl
  obtain ⟨p, w, hperform, hwindow⟩ := hre.performed
  refine ⟨by rw [hre.held.texts_eq, htexts], hdol, fun n line hn hline =>
    Rewriting.becomes_isPrefix h₁ hs hstop hn hline, fun name => ?_, ?_⟩
  · have hlabels := Rewriting.labels_reviseLines hperform name
    rw [Nat.add_zero] at hlabels
    rw [hwindow, Window.noteEdit_eq]
    exact hlabels
  · have hdot := Rewriting.dot_reviseRun h₁ hs hstop hperform hsome
    rw [hwindow, Window.noteEdit_eq]
    exact hdot

/-- What is done when the request of a substitution has been read. -/
def revise (range : LineRange) (request : SubstituteRequest) : EditM Report := do
  carryOut false (← query fun v => v.planRevision range request)

/-- Whatever finds the matches, the lines are rewritten as is found for each of them. -/
theorem revise_ends (h : e.Ready) (hcalm : e.interrupted = false) (h₁ : 1 ≤ range.start)
    (hr : range.Within e.window.dol) (hm : request.matcher.Bounded) :
    Ends (revise range request) e
      (e.Substitutes request (e.pool.texts e.window.lines) range) := by
  have happlies := request.apply_eq_revision hm e.limits.lineLength
  unfold revise
  rw [ends_bind, ends_query]
  refine (planRevision_ends h.toSteady.toHeld hr.le hm hcalm).mono ?_
  rintro answer _ ⟨rfl, hanswer⟩
  cases answer with
  | ok plan =>
    obtain ⟨hposs, shape, rfl⟩ := hanswer
    refine (carryOut_revise_ends h h₁ hr hposs.replaces shape _).of_sure fun report e' hrewrote => ?_
    exact ⟨happlies,
      ⟨(by rintro ⟨⟩), fun hall => absurd hall (Rewriting.not_all_unchanged hposs.replaces)⟩,
      ⟨fun _ => hposs, fun _ => ⟨report, rfl⟩⟩, fun _ => hrewrote⟩
  | error err =>
    obtain ⟨hnot, hnoMatch⟩ := hanswer
    have hfails : ¬∃ report, (Except.error err : Except EditError Report) = .ok report := by
      rintro ⟨_, ⟨⟩⟩
    refine ⟨happlies, Iff.trans ⟨fun heq => Except.error.inj heq, congrArg Except.error⟩ hnoMatch,
      ⟨fun hok => absurd hok hfails, fun hposs => absurd hposs hnot⟩, fun hok => absurd hok hfails⟩

/-- First the request is read, which lets through what the revision relies on. -/
theorem runSubstitute_ends {tail : List Char} {r : Recall} {post : Post Engine Report}
    (hread : (SubstituteRequest.parse e.view tail).run.run e.remembered = .ok (.ok request, r))
    (h : Ends (revise range request) (e.withRecall r) post) :
    Ends (runLine false (some .substitute) range tail) e post := by
  have hparse : Ends (SubstituteRequest.parse e.view tail) e.remembered
      (.sure fun found r' => found = request ∧ r' = r) := ⟨_, hread, rfl, rfl⟩
  unfold revise at h
  rw [ends_bind, ends_query] at h
  unfold runLine
  rw [ends_bind, ends_query]
  show Ends (e.view.planSubstitute range tail) e.remembered _
  rw [View.planSubstitute_eq]
  refine hparse.sure_then ?_
  rintro _ _ ⟨rfl, rfl⟩
  exact h

end

end EditM

namespace Engine

/-- Unless it is interrupted, a substitution whose request was read rewrites just those lines of its
range that have a match to replace, or is refused, and says that there is no match exactly if none of
them has one. That is so whatever stands in the place of the matcher. -/
theorem Reachable.substitutes {e e₁ : Engine} (h : e.Reachable) (hcalm : e.interrupted = false)
    {line : List Char} {q : Request} {range : LineRange} {request : SubstituteRequest} {r : Recall}
    (hq : e.asks line = some q) (hloc : e.located q = some (range, e₁))
    (hc : q.command = some (.line .substitute))
    (hmode : e.window.mode.allows (.line .substitute) = true)
    (hread : (SubstituteRequest.parse e₁.view q.tail).run.run e₁.remembered = .ok (.ok request, r))
    (s : Storage σ) (disk : σ) : ∃ lines, e.window.texts e.pool 1 e.window.dol = .ok lines ∧
      (∃ answer e', e.dispatchOn s line disk = .ok (answer, e', disk) ∧
        e.Substitutes request lines range answer e') ∧
      ∀ matcher : Matcher, matcher.Bounded → ∃ answer e',
        (e₁.withRecall r).run (EditM.revise range { request with matcher := matcher }) =
          .ok (answer, e') ∧
        e.Substitutes { request with matcher := matcher } lines range answer e' := by
  have hidle : e.Idle := ⟨h.steady, (asks_eq_some.mp hq).1⟩
  have hready : e₁.Ready := hidle.ready_located (by rw [hc]; rfl) hloc
  have hall : q.command.all e.window.mode.allows = true := by
    rw [hc]
    exact hmode
  obtain ⟨h₁, hr⟩ := hidle.located_within hloc (by rw [hc]; rfl)
  obtain ⟨hpool, hlimits, hlines, hlabels, -⟩ := located_same hloc
  have hdol : e₁.window.dol = e.window.dol := congrArg List.length hlines
  have htexts : e₁.pool.texts e₁.window.lines = e.pool.texts e.window.lines := by rw [hpool, hlines]
  obtain ⟨hkept, hm⟩ := (View.parse_yields e₁.view q.tail e₁.remembered).leads _ _ hread
  -- a request to stop that was not there before is not there now
  have hcalm₁ : e₁.interrupted = false := by
    obtain ⟨r₁, hlocate, rfl⟩ := located_eq_some.mp hloc
    have hkept₁ := (View.locate_yields hidle.toHeld.readable false q.command q.range
      e.remembered).leads _ _ hlocate
    exact Bool.eq_false_iff.mpr fun hset => Bool.eq_false_iff.mp hcalm (hkept₁.1 hset)
  have hcalm₂ : r.interrupted = false :=
    Bool.eq_false_iff.mpr fun hset => Bool.eq_false_iff.mp hcalm₁ (hkept hset)
  have hrevise (request' : SubstituteRequest) (hm' : request'.matcher.Bounded) :
      Ends (EditM.revise range request') (e₁.withRecall r)
        (e.Substitutes request' (e.pool.texts e.window.lines) range) := by
    rw [← htexts]
    exact (EditM.revise_ends (hready.withRecall r) hcalm₂ h₁ hr hm').mono fun _ _ hsub =>
      hsub.of_same hlimits hdol hlabels
  refine ⟨_, hidle.toHeld.texts_eq, ?_, fun matcher hmatcher => ?_⟩
  · exact EditM.dispatchOn_located hq hloc hall (by rw [hc]; rfl) (EditM.runSubstitute_ends hread (hrevise _ hm)) s disk
  · obtain ⟨⟨answer, e'⟩, hrun, hsub⟩ := hrevise { request with matcher := matcher } hmatcher
    exact ⟨answer, e', hrun, hsub⟩

/-- Two of three lines are split, and the label on the last one moves down with it. -/
theorem substitutes_splitting : ∃ e report e',
    (Engine.new ⟨1, 10, 100⟩).performAll [.insertBulk 0 [97, 45, 98, 10, 99, 10, 100, 45, 101, 10],
      .line FileTree.storage .empty ['3', 'k', 'z']] = .ok e ∧
    e.dispatchOn FileTree.storage [',', 's', '/', '-', '/', '\\', 'n', '/'] .empty =
      .ok (.ok report, e', .empty) ∧
    e'.window.texts e'.pool 1 e'.window.dol = .ok [[97], [98], [99], [100], [101]] ∧
    e'.window.labels.get? 'z' = some 4 := by
  have hall : ((Engine.new ⟨1, 10, 100⟩).performAll
      [.insertBulk 0 [97, 45, 98, 10, 99, 10, 100, 45, 101, 10],
        .line FileTree.storage .empty ['3', 'k', 'z']] >>= fun e => pure (!e.interrupted &&
      e.window.mode.allows (.line .substitute) && e.window.labels.get? 'z' = some 3 &&
      e.window.texts e.pool 1 e.window.dol = .ok [[97, 45, 98], [99], [100, 45, 101]] &&
      e.window.dol + 2 ≤ e.limits.lines && (e.asks [',', 's', '/', '-', '/', '\\', 'n', '/']).any fun q =>
        q.command = some (.line .substitute) && q.tail = ['/', '-', '/', '\\', 'n', '/'] &&
        (e.located q).any fun x => x.1 = ⟨1, 3, 2⟩ &&
          ((SubstituteRequest.parse x.2.view ['/', '-', '/', '\\', 'n', '/']).run.run
            x.2.remembered).toOption.any fun y => y.1.toOption.any fun request =>
              e.ruleOf request [97, 45, 98] = .replaced [97, 10, 98] &&
              e.ruleOf request [99] = .unchanged &&
              e.ruleOf request [100, 45, 101] = .replaced [100, 10, 101])) = .ok true := by
    simp only [SubstituteRequest.parse_slash]
    decide +kernel
  obtain ⟨e, hstart, hvalues⟩ := bind_eq_ok.mp hall
  have hvalues := Except.ok.inj hvalues
  simp only [Bool.and_eq_true, Bool.not_eq_true', decide_eq_true_eq, Option.any_eq_true] at hvalues
  obtain ⟨⟨⟨⟨⟨hcalm, hmode⟩, hlabel⟩, htexts⟩, hroom⟩, q, hq, ⟨hc, htail⟩, ⟨range, e₁⟩, hloc, rfl,
    found, hfound, answer, hanswer, ⟨hfirst, hsecond⟩, hthird⟩ := hvalues
  rw [← htail] at hfound
  obtain ⟨⟨parsed, r⟩, hparse, -⟩ := View.parse_yields e₁.view q.tail e₁.remembered
  rw [hparse] at hfound
  obtain rfl := Option.some.inj hfound
  cases parsed with
  | error err => cases hanswer
  | ok request =>
    obtain rfl := Option.some.inj hanswer
    obtain ⟨lines, hlines, ⟨answer, e', hrun, hsub⟩, -⟩ := Reachable.substitutes
      ((Reachable.new _).performAll hstart) hcalm hq hloc hc hmode hparse FileTree.storage .empty
    obtain rfl := Except.ok.inj (htexts.symm.trans hlines)
    have hadded : Rewriting.added (e.ruleOf request) [[97, 45, 98], [99], [100, 45, 101]] = 2 := by
      simp only [Rewriting.added, List.map_cons, hfirst, hsecond, hthird]
      rfl
    have hposs : Rewriting.Possible (e.ruleOf request) [[97, 45, 98], [99], [100, 45, 101]]
        e.window.dol e.limits.lines := by
      refine ⟨?_, ⟨_, List.mem_cons_self, by rw [hfirst]; rfl⟩, by rwa [hadded]⟩
      simp only [List.forall_mem_cons, hfirst, hsecond, hthird]
      exact ⟨rfl, trivial, rfl, List.forall_mem_nil _⟩
    obtain ⟨report, rfl⟩ := hsub.ok_iff.mpr hposs
    have hre := hsub.rewrote ⟨report, rfl⟩
    refine ⟨e, report, e', hstart, hrun, hre.texts_eq.trans ?_, ?_⟩
    · show Except.ok ([] ++ Rewriting.rewritten _ [[97, 45, 98], [99], [100, 45, 101]] ++ []) = _
      simp only [Rewriting.rewritten, List.flatMap_cons, hfirst, hsecond, hthird]
      rfl
    · rw [hre.labels_eq, hlabel]
      show some (3 + Rewriting.added _ [[97, 45, 98], [99]]) = _
      simp only [Rewriting.added, List.map_cons, hfirst, hsecond]
      rfl

end Engine

end LineEditor
