import LineEditor.Proofs.Filtering
import LineEditor.Proofs.Lookalikes
import LineEditor.Proofs.Overlays
import LineEditor.Proofs.Replacing
import LineEditor.Proofs.Rereading

/-!
# Substituting line by line

A substitution in the whole window is worked out on the lines as they are, and then they are
rewritten. A global command with the same substitution marks the lines that match and rewrites them
one after the other, each in the window that the one before left. Where no line has tokens, one
comes to the same as the other.
-/

namespace LineEditor

/-! ## Which lines are rewritten -/

namespace Substitution

/-- Where the first match is to be replaced, a line stays as it is exactly if there is none. -/
theorem apply_eq_unchanged_iff {matcher : Matcher} (hm : matcher.Bounded) (template : Bytes)
    {which : Occurrence} (hfirst : which.wants 1 = true) (limit : Nat) (line : Bytes) :
    apply matcher template which limit line = .ok .unchanged ↔ matcher.isMatch line = false := by
  obtain ⟨ms, hmeets, -, -, happly⟩ := apply_eq_rewrite (hm.fitsIn line) template which limit
  rw [happly, Matcher.isMatch]
  cases hmeets with
  | done hnone =>
    have hchoose : which.choose ([] : List Regex.Match) = [] := by
      rw [← Occurrence.chooseFrom_one]
      rfl
    rw [if_pos hchoose, hnone]
    exact ⟨fun _ => rfl, fun _ => rfl⟩
  | @next _ m rest hsome =>
    have hchoose : which.choose (m :: rest) ≠ [] := by
      rw [← Occurrence.chooseFrom_one, Occurrence.chooseFrom, if_pos hfirst]
      exact List.cons_ne_nil _ _
    rw [if_neg hchoose, hsome]
    constructor
    · intro h
      split at h <;> cases h
    · rintro ⟨⟩

end Substitution

theorem SubstituteRequest.revision_eq_unchanged_iff {r : SubstituteRequest}
    (hm : r.matcher.Bounded) (hfirst : r.which.wants 1 = true) (limit : Nat) (line : Bytes) :
    r.revision limit line = .unchanged ↔ r.matcher.isMatch line = false := by
  rw [← Substitution.apply_eq_unchanged_iff hm r.template hfirst limit,
    r.apply_eq_revision hm limit line]
  exact ⟨congrArg Except.ok, Except.ok.inj⟩

namespace Rewriting

/-- What the marked rows are to become, with their numbers, the first of all rows being row
`start`. -/
def pending (rule : Bytes → Revision) (start : Nat) : List Row → List (Nat × List Bytes)
  | [] => []
  | row :: rest =>
    if row.marked then (start, (rule row.text).pieces row.text) :: pending rule (start + 1) rest
    else pending rule (start + 1) rest

/-- By how many lines a window grows. -/
def growth (changes : List (Nat × List Bytes)) : Nat := (changes.map fun c => c.2.length - 1).sum

/-- A line alone can be rewritten if it does not stay as it is, and there is room. -/
theorem possible_single {rule : Bytes → Revision} {line : Bytes} {size limit : Nat} :
    Possible rule [line] size limit ↔ rule line ≠ .unchanged ∧ (rule line).Passes line ∧
      size + (((rule line).pieces line).length - 1) ≤ limit := by
  have hadded : added rule [line] = ((rule line).pieces line).length - 1 := Nat.add_zero _
  constructor
  · rintro ⟨hpasses, hreplaces, hroom⟩
    refine ⟨fun hsame => ?_, hpasses line List.mem_cons_self, hadded ▸ hroom⟩
    exact not_all_unchanged hreplaces (by simpa using hsame)
  · rintro ⟨hchanges, hpass, hroom⟩
    refine ⟨by simpa using hpass, ⟨line, List.mem_cons_self, ?_⟩, hadded.symm ▸ hroom⟩
    exact (Bool.not_eq_false _).mp fun hkept => hchanges (Revision.eq_unchanged hpass hkept)

section
variable {rule : Bytes → Revision} {start : Nat} {rows : List Row}

theorem pending_of_marked {row : Row} (h : row.marked = true) (rest : List Row) :
    pending rule start (row :: rest) =
      (start, (rule row.text).pieces row.text) :: pending rule (start + 1) rest :=
  if_pos h

theorem pending_of_unmarked {row : Row} (h : row.marked = false) (rest : List Row) :
    pending rule start (row :: rest) = pending rule (start + 1) rest :=
  if_neg (Bool.eq_false_iff.mp h)

theorem pending_unmarked_append {front : List Row} (h : ∀ row ∈ front, row.marked = false)
    (rest : List Row) :
    pending rule start (front ++ rest) = pending rule (start + front.length) rest := by
  induction front generalizing start with
  | nil => rfl
  | cons row front ih =>
    obtain ⟨hrow, hfront⟩ := List.forall_mem_cons.mp h
    rw [List.cons_append, pending_of_unmarked hrow, ih hfront, List.length_cons]
    congr 1
    omega

theorem pending_eq_nil (h : ∀ row ∈ rows, row.marked = false) : pending rule start rows = [] := by
  have hall : pending rule start (rows ++ []) = pending rule (start + rows.length) [] :=
    pending_unmarked_append h []
  rwa [List.append_nil] at hall

/-- Rows that are further down have larger numbers. -/
theorem pending_add (more : Nat) : pending rule (start + more) rows =
    (pending rule start rows).map fun c => (c.1 + more, c.2) := by
  induction rows generalizing start with
  | nil => rfl
  | cons row rest ih =>
    have hnext : start + more + 1 = start + 1 + more := by omega
    cases hm : row.marked with
    | true => rw [pending_of_marked hm, pending_of_marked hm, hnext, ih, List.map_cons]
    | false => rw [pending_of_unmarked hm, pending_of_unmarked hm, hnext, ih]

/-- Where just those rows are marked that change, the changes are to be made. -/
theorem pending_eq_changes (h : ∀ row ∈ rows, row.marked = (rule row.text).isReplaced) :
    pending rule start rows = changes rule start (rows.map Row.text) := by
  induction rows generalizing start with
  | nil => rfl
  | cons row rest ih =>
    obtain ⟨hrow, hrest⟩ := List.forall_mem_cons.mp h
    rw [List.map_cons]
    cases hm : row.marked with
    | true => rw [pending_of_marked hm, changes_of_replaced (hrow.symm.trans hm), ih hrest]
    | false => rw [pending_of_unmarked hm, changes_of_kept (hrow.symm.trans hm), ih hrest]

theorem growth_cons (n : Nat) (pieces : List Bytes) (rest : List (Nat × List Bytes)) :
    growth ((n, pieces) :: rest) = pieces.length - 1 + growth rest :=
  List.sum_cons

/-- Where the lines were does not matter. -/
theorem growth_map (more : Nat) (changes : List (Nat × List Bytes)) :
    growth (changes.map fun c => (c.1 + more, c.2)) = growth changes := by
  unfold growth
  rw [List.map_map]
  rfl

theorem growth_pending
    (h : ∀ row ∈ rows, row.marked = false → (rule row.text).isReplaced = false) :
    growth (pending rule start rows) = added rule (rows.map Row.text) := by
  induction rows generalizing start with
  | nil => rfl
  | cons row rest ih =>
    obtain ⟨hrow, hrest⟩ := List.forall_mem_cons.mp h
    rw [List.map_cons, added_cons, ← @ih (start + 1) hrest]
    cases hm : row.marked with
    | true => rw [pending_of_marked hm, growth_cons]
    | false =>
      rw [pending_of_unmarked hm, Revision.pieces_of_kept _ (hrow hm), List.length_singleton,
        Nat.sub_self, Nat.zero_add]

end

end Rewriting

/-! ## One line is rewritten -/

namespace Window

/-- The window when a substitution has been made in it and no mark is left. -/
def settled (source template : List Char) (w : Window) : Window :=
  w.clearMarks.markChanged.remember source template

theorem clearMarks_setMark (w : Window) (n : Nat) (on : Bool) :
    (w.setMark n on).clearMarks = w.clearMarks := by
  cases n with
  | zero => rfl
  | succ i =>
    exact congrArg (fun lines => { w with lines := lines }) (LineMap.clearMarks_modify w.lines i on)

theorem noteEdit_of_normal {w : Window} (h : w.mode = .normal) : w.noteEdit = w.markChanged := by
  unfold noteEdit
  rw [h]
  rfl

theorem overlay_settled (source template : List Char) : Overlay (settled source template) :=
  (overlay_remember source template).comp (overlay_markChanged.comp overlay_clearMarks)

end Window

namespace SubstituteRequest

/-- The same substitution with the pattern that was used last. -/
def again (replacing : List Char) (all : Bool) : List Char :=
  's' :: '/' :: '/' :: (replacing ++ '/' :: flagsOf all)

theorem settle_bounded {w : Window} {replacement : Option (List Char)} {source body : List Char}
    {which : Occurrence} {request : SubstituteRequest} {template : List Char}
    (h : settle w replacement source body which = .ok (request, template)) :
    request.matcher.Bounded := by
  obtain ⟨-, hmatcher, -⟩ := settle_eq_ok.mp h
  have hreads := w.compile_reads source false
  rw [hmatcher] at hreads
  exact hreads

end SubstituteRequest

namespace Engine

/-- The lines of the window were rewritten as told, and nothing else is new but what is remembered
and noted of it. -/
structure Revised (source template : List Char) (changes : List (Nat × List Bytes)) (e e' : Engine) :
    Prop where
  lines_eq : (e.window.settled source template).reviseLines e.pool 0 changes =
    .ok (e'.window.settled source template, e'.pool)
  engine_eq : e' = { e.setWindow e'.window with pool := e'.pool }

/-- A substitution is to be made that was read once: its pattern is the one that was used last, and
its replacement stands for the same text. -/
structure Due (source body : List Char) (which : Occurrence) (request : SubstituteRequest)
    (template : List Char) (e : Engine) : Prop extends e.Sound where
  untyped : e.entry = none
  normal : e.window.mode = .normal
  calm : e.interrupted = false
  search_eq : e.window.lastSearch = some source
  settles : SubstituteRequest.settle e.window e.window.lastReplacement source body which =
    .ok (request, template)

/-- What a substitution plans in the lines of a range, when its texts stand for `source` and `body`. -/
def Plans (e : Engine) (range : LineRange) (source body : List Char) (which : Occurrence)
    (answer : Except EditError Plan) (e' : Engine) : Prop :=
  match SubstituteRequest.settle e.window e.window.lastReplacement source body which with
  | .error err => answer = .error err
  | .ok (request, template) => e' = e.setWindow (e.window.remember source template) ∧
    match answer with
    | .ok plan =>
      Rewriting.Possible (e.ruleOf request) (e.linesIn range) e.window.dol e.limits.lines ∧
        ∃ shape, plan = .edit (.revise (Rewriting.changes (e.ruleOf request) range.start
          (e.linesIn range))) shape none
    | .error err =>
      ¬Rewriting.Possible (e.ruleOf request) (e.linesIn range) e.window.dol e.limits.lines ∧
        (err = .noMatch ↔ ∀ line ∈ e.linesIn range, e.ruleOf request line = .unchanged)

/-- The line of a row was rewritten that is the first one marked: it could become what the rule says,
and there was room for it. -/
structure Rewritten (rule : Bytes → Revision) (limit : Nat) (source template : List Char)
    (front : List Row) (row : Row) (back : List Row) (e e' : Engine) : Prop where
  passes : (rule row.text).Passes row.text
  room : e.window.dol + (((rule row.text).pieces row.text).length - 1) ≤ limit
  rows_eq : e'.rows = front ++ ((rule row.text).pieces row.text).map Row.plain ++ back
  revised : Revised source template [(front.length + 1, (rule row.text).pieces row.text)] e e'
  clear : e'.window.settled source template = e'.window.clearMarks

/-- How it comes out that the lines of all marked rows are to be rewritten. If it is not done, one may
not become what it would, or they do not fit. -/
def Finishes (rule : Bytes → Revision) (limit : Nat) (source template : List Char) (e : Engine) :
    Post Engine Report
  | .ok _, e' => (∀ row ∈ e.rows, row.marked = true → (rule row.text).Passes row.text) ∧
    (Rewriting.pending rule 1 e.rows ≠ [] →
      e.window.dol + Rewriting.growth (Rewriting.pending rule 1 e.rows) ≤ limit) ∧
    e.Revised source template (Rewriting.pending rule 1 e.rows) e' ∧
    (Rewriting.pending rule 1 e.rows ≠ [] ∨
        e.window.settled source template = e.window.clearMarks →
      e'.window.settled source template = e'.window.clearMarks)
  | .error _, _ => ¬((∀ row ∈ e.rows, row.marked = true → (rule row.text).Passes row.text) ∧
    e.window.dol + Rewriting.growth (Rewriting.pending rule 1 e.rows) ≤ limit)

section
variable {source template : List Char} {e e₁ e' : Engine} {n : Nat} {pieces : List Bytes}
  {rest : List (Nat × List Bytes)}

theorem Revised.refl (e : Engine) : Revised source template [] e e := ⟨rfl, rfl⟩

theorem Revised.then (h : Revised source template [(n, pieces)] e e₁)
    (hrest : Revised source template (rest.map fun c => (c.1 + (pieces.length - 1), c.2)) e₁ e') :
    Revised source template ((n, pieces) :: rest) e e' where
  lines_eq := by
    refine Window.reviseLines_cons_of_single h.lines_eq ?_
    rw [Window.reviseLines_map_add]
    exact hrest.lines_eq
  engine_eq := by
    rw [hrest.engine_eq, h.engine_eq]
    rfl

/-- One line was rewritten: it was the current line and had lost its mark, which makes no difference
to the others. What was remembered and noted of it would be the same the next time. -/
theorem Due.rewritten {body : List Char} {which : Occurrence} {request : SubstituteRequest}
    (h : Due source body which request template e) (hne : pieces ≠ []) {w : Window} {p : Pool}
    (hlines : (((e.window.setMark n false).setDot n).remember source template).reviseLines e.pool 0
      [(n, pieces)] = .ok (w, p))
    (hsound : Sound { e.setWindow w.noteEdit with pool := p }) :
    Due source body which request template { e.setWindow w.noteEdit with pool := p } ∧
      Revised source template [(n, pieces)] e { e.setWindow w.noteEdit with pool := p } ∧
      w.noteEdit.settled source template = w.noteEdit.clearMarks := by
  have hsettled := (Window.overlay_settled source template).reviseLines _ hlines
  have hbefore : ((((e.window.setMark n false).setDot n).remember source template).settled source
      template).setDot e.window.dot = e.window.settled source template := by
    show ((Window.clearMarks (e.window.setMark n false)).markChanged.remember source
      template).setDot e.window.dot = _
    rw [Window.clearMarks_setMark]
    rfl
  have hrevised := Window.reviseLines_setDot hne e.window.dot hsettled
  rw [hbefore] at hrevised
  have hmode : (((e.window.setMark n false).setDot n).remember source template).mode = .normal := by
    cases n <;> exact h.normal
  have hbinary : (((e.window.setMark n false).setDot n).remember source template).flags.binary =
      e.window.flags.binary := by
    cases n <;> rfl
  obtain ⟨dot, lines, labels, last, rfl⟩ := Window.reviseLines_frame _ hlines
  rw [Window.noteEdit_of_normal (by exact hmode)] at hsound ⊢
  refine ⟨⟨hsound, h.untyped, hmode, h.calm, rfl, ?_⟩, ⟨hrevised, rfl⟩, rfl⟩
  exact SubstituteRequest.settle_again h.settles hbinary

/-- The row of a line gives its text. -/
theorem linesIn_middle {front back : List Row} {row : Row} (hrows : e.rows = front ++ row :: back) :
    e.linesIn ⟨front.length + 1, front.length + 1, 0⟩ = [row.text] := by
  have htexts : e.pool.texts e.window.lines = (front ++ row :: back).map Row.text := by
    rw [← hrows]
    rfl
  unfold linesIn
  rw [htexts]
  simp [Sequence.run]

end

end Engine

namespace EditM

/-- What was planned for the line handed out is carried out. -/
theorem carryOut_rewritten {e : Engine} {source template body : List Char} {which : Occurrence}
    {request : SubstituteRequest} (h : e.Due source body which request template)
    {front back : List Row} {row : Row} (hrows : e.rows = front ++ row :: back)
    {pieces : List Bytes} (hne : pieces ≠ []) (shape : Bool) :
    Ends (carryOut true (.edit (.revise [(front.length + 1, pieces)]) shape none))
      ((e.handOut (front.length + 1)).setWindow
        ((e.handOut (front.length + 1)).window.remember source template)) (.sure fun _ e' =>
          e.Worked e' ∧ e'.Due source body which request template ∧
          e'.rows = front ++ pieces.map Row.plain ++ back ∧
          Engine.Revised source template [(front.length + 1, pieces)] e e' ∧
          e'.window.settled source template = e'.window.clearMarks) := by
  have hdol : front.length + 1 ≤ e.window.dol := by
    have hlen := congrArg List.length hrows
    rw [Engine.rows, Pool.length_rows, List.length_append, List.length_cons] at hlen
    unfold Window.dol
    omega
  have h₁ : 1 ≤ front.length + 1 := Nat.le_add_left _ _
  have hhand := h.toSound.worked_handOut h₁ hdol
  have hnoted : (e.handOut (front.length + 1)).Worked _ :=
    hhand.sound.worked_note (w := (e.handOut (front.length + 1)).window.remember source template)
      rfl rfl rfl rfl
  have hsize : (e.handOut (front.length + 1)).window.dol = e.window.dol :=
    e.dol_setMark (front.length + 1) false
  have hfit : (Edit.revise [(front.length + 1, pieces)]).Fits
      ((e.handOut (front.length + 1)).setWindow
        ((e.handOut (front.length + 1)).window.remember source template)).window.dol := by
    intro c hc
    obtain rfl := List.mem_singleton.mp hc
    exact ⟨h₁, hsize.symm ▸ hdol, hne⟩
  refine (carryOut_inside_ends hnoted.sound (hnoted.untyped h.untyped) hfit shape none).of_sure ?_
  rintro report _ ⟨-, hw, hrows', w, p, hrun, rfl⟩
  obtain ⟨hdue, hrevised, hclear⟩ := h.rewritten (n := front.length + 1) hne hrun hw.sound
  refine ⟨(hhand.trans hnoted).trans hw, hdue, ?_, hrevised, hclear⟩
  rw [hrows']
  show Sequence.splice (e.handOut (front.length + 1)).rows _ 1 _ = _
  rw [Engine.rows_handOut h.toSound, hrows, Sequence.update_middle]
  exact Sequence.splice_middle _ _ _ _

section
variable {e : Engine} {written replacing pattern body source : List Char}
  (hp : Delimited.scan '/' (written ++ ['/']) = ⟨pattern, [], true⟩)
  (ht : Delimited.scan '/' (replacing ++ ['/']) = ⟨body, [], true⟩)
  (hsource : resolveSearch e.window.lastSearch pattern = .ok source)
include hp ht hsource

theorem planSubstitute_plans (h : e.Held) (hcalm : e.interrupted = false) {range : LineRange}
    (hs : range.start ≤ range.stop) (all : Bool) :
    Ends (query fun v => v.planSubstitute range
      ('/' :: (written ++ '/' :: (replacing ++ '/' :: SubstituteRequest.flagsOf all)))) e
        (e.Plans range source body (SubstituteRequest.whichOf all)) := by
  have hparse := SubstituteRequest.parse_settles (v := e.view) (r := e.remembered) hp ht hsource all
  rw [show e.view.window = e.window from rfl,
    show e.remembered.replacement = e.window.lastReplacement from rfl] at hparse
  unfold Engine.Plans
  rw [ends_query, View.planSubstitute_eq]
  cases hsettle : SubstituteRequest.settle e.window e.window.lastReplacement source body
    (SubstituteRequest.whichOf all) with
  | error err =>
    rw [hsettle] at hparse
    refine hparse.then ?_ ?_
    · rintro _ _ ⟨⟨⟩, -⟩
    · rintro _ _ ⟨heq, -⟩
      exact congrArg Except.error (Except.error.inj heq)
  | ok found =>
    obtain ⟨request, template⟩ := found
    have hm := SubstituteRequest.settle_bounded hsettle
    have hprint : request.print = none := by
      obtain ⟨-, -, -, hrequest⟩ := SubstituteRequest.settle_eq_ok.mp hsettle
      rw [hrequest]
    rw [hsettle] at hparse
    refine hparse.then ?_ ?_
    · rintro _ _ ⟨⟨⟩, rfl⟩
      refine (planRevision_ends h hs hm hcalm).mono ?_
      rintro answer _ ⟨rfl, hanswer⟩
      rw [hprint] at hanswer
      exact ⟨rfl, hanswer⟩
    · rintro _ _ ⟨⟨⟩, -⟩

/-- No substitution is planned where the user has asked for it to stop. -/
theorem planSubstitute_stops (hset : e.interrupted = true) (range : LineRange) (all : Bool) :
    Ends (query fun v => v.planSubstitute range
      ('/' :: (written ++ '/' :: (replacing ++ '/' :: SubstituteRequest.flagsOf all)))) e
        fun answer _ => ∃ err, answer = .error err := by
  have hparse := SubstituteRequest.parse_settles (v := e.view) (r := e.remembered) hp ht hsource all
  rw [ends_query, View.planSubstitute_eq]
  refine hparse.then (fun request r hread => ?_) fun err _ _ => ⟨err, rfl⟩
  split at hread
  · obtain ⟨-, rfl⟩ := hread
    unfold View.planRevision
    rw [Query.ends_checkInterrupt_bind, if_pos (by exact hset)]
    exact ⟨_, rfl⟩
  · cases hread.1

end

section
variable {e : Engine} {replacing body source : List Char} {all : Bool}
  (ht : Delimited.scan '/' (replacing ++ ['/']) = ⟨body, [], true⟩)
include ht

/-- On the current line the request is read anew, and it is worked out what becomes of the line. -/
theorem planSubcommand_again (all : Bool) (h : e.Held) (hmode : e.window.mode = .normal)
    (h₁ : 1 ≤ e.window.dot) (hdot : e.window.dot ≤ e.window.dol) (hcalm : e.interrupted = false)
    (hsearch : e.window.lastSearch = some source) :
    Ends (planSubcommand (SubstituteRequest.again replacing all)) e
      (e.Plans ⟨e.window.dot, e.window.dot, 0⟩ source body (SubstituteRequest.whichOf all)) := by
  have hempty : Delimited.scan '/' ([] ++ ['/']) = ⟨[], [], true⟩ := Delimited.scan_delim []
  have hsource : resolveSearch e.window.lastSearch [] = .ok source := by
    rw [hsearch]
    rfl
  refine planSubcommand_letter (c := .substitute) hmode h₁ hdot rfl ?_
  exact planSubstitute_plans hempty ht hsource h hcalm (Nat.le_refl _) all

/-- A line that does not stay as it is becomes what the rule says, if it may and there is room. -/
theorem visit_again {request : SubstituteRequest} {template : List Char}
    (h : Engine.Due source body (SubstituteRequest.whichOf all) request template e) {n : Nat}
    {front back : List Row} {row : Row}
    (hnext : e.window.lines.nextMarked? n = some (front.length + 1))
    (hrows : e.rows = front ++ row :: back) (hchanges : e.ruleOf request row.text ≠ .unchanged)
    (last : Option Nat) :
    Ends (visit (SubstituteRequest.again replacing all) (front.length + 1) last) e fun answer e' =>
      match answer with
      | .ok _ => e.Worked e' ∧
        Engine.Due source body (SubstituteRequest.whichOf all) request template e' ∧
        Engine.Rewritten (e.ruleOf request) e.limits.lines source template front row back e e'
      | .error _ => ¬((e.ruleOf request row.text).Passes row.text ∧
        e.window.dol + (((e.ruleOf request row.text).pieces row.text).length - 1) ≤
          e.limits.lines) := by
  obtain ⟨h₁, hdol⟩ := LineMap.nextMarked?_le hnext
  have hhand := h.toSound.worked_handOut h₁ hdol
  have hsize : (e.handOut (front.length + 1)).window.dol = e.window.dol :=
    e.dol_setMark (front.length + 1) false
  have hline : (e.handOut (front.length + 1)).rows = front ++ row.unmark :: back := by
    rw [Engine.rows_handOut h.toSound, hrows, Sequence.update_middle]
  have hplan := planSubcommand_again ht (e := e.handOut (front.length + 1)) all hhand.sound.toHeld
    h.normal h₁ (hsize ▸ hdol) h.calm h.search_eq
  have hsettles : SubstituteRequest.settle (e.handOut (front.length + 1)).window
      (e.handOut (front.length + 1)).window.lastReplacement source body
        (SubstituteRequest.whichOf all) = .ok (request, template) := h.settles
  unfold Engine.Plans at hplan
  rw [hsettles] at hplan
  simp only [show (e.handOut (front.length + 1)).window.dot = front.length + 1 from rfl,
    Engine.linesIn_middle hline, Rewriting.possible_single, List.forall_mem_singleton] at hplan
  rw [ends_visit hdol]
  refine hplan.then ?_ ?_
  · rintro plan _ ⟨rfl, ⟨hne, hpass, hroom⟩, shape, rfl⟩
    have hchange : Rewriting.changes ((e.handOut (front.length + 1)).ruleOf request)
        (front.length + 1) [row.unmark.text] =
          [(front.length + 1, (e.ruleOf request row.text).pieces row.text)] := by
      have hreplaced : (e.ruleOf request row.text).isReplaced = true :=
        (Bool.not_eq_false _).mp fun hkept => hne (Revision.eq_unchanged hpass hkept)
      exact Rewriting.changes_of_replaced hreplaced _ _
    rw [hchange]
    refine (carryOut_rewritten h hrows (Revision.pieces_ne_nil _ _) shape).of_sure ?_
    rintro report e' ⟨hw, hdue, hrows', hrevised, hclear⟩
    exact ⟨hw, hdue, hpass, hsize ▸ hroom, hrows', hrevised, hclear⟩
  · rintro err _ ⟨-, hnot, hnoMatch⟩
    rw [visited_error fun heq => hchanges (hnoMatch.mp heq)]
    rintro ⟨hpass, hroom⟩
    exact hnot ⟨hchanges, hpass, hsize.symm ▸ hroom⟩

/-- Where something is wrong with the request, the visit fails: it is not that there is no match. -/
theorem visit_refused (h : e.Sound) (hmode : e.window.mode = .normal) (hcalm : e.interrupted = false)
    (hsearch : e.window.lastSearch = some source) {err : EditError}
    (hsettle : SubstituteRequest.settle e.window e.window.lastReplacement source body
      (SubstituteRequest.whichOf all) = .error err) {n k : Nat}
    (hnext : e.window.lines.nextMarked? n = some k) (last : Option Nat) :
    Ends (visit (SubstituteRequest.again replacing all) k last) e fun answer _ =>
      ∃ err, answer = .error err := by
  obtain ⟨h₁, hdol⟩ := LineMap.nextMarked?_le hnext
  have hhand := h.worked_handOut h₁ hdol
  have hsize : (e.handOut k).window.dol = e.window.dol := e.dol_setMark k false
  have hsame : (e.handOut k).window.mode = e.window.mode ∧
      (e.handOut k).window.lastSearch = e.window.lastSearch ∧
      SubstituteRequest.settle (e.handOut k).window (e.handOut k).window.lastReplacement source body
        (SubstituteRequest.whichOf all) = .error err := by
    cases k <;> exact ⟨rfl, rfl, hsettle⟩
  have hplan := planSubcommand_again ht (e := e.handOut k) all hhand.sound.toHeld
    (hsame.1.trans hmode) h₁ (hsize ▸ hdol) hcalm (hsame.2.1.trans hsearch)
  unfold Engine.Plans at hplan
  rw [hsame.2.2] at hplan
  rw [ends_visit hdol]
  refine hplan.then ?_ ?_
  · rintro _ _ ⟨⟩
  · rintro err' _ ⟨⟩
    have hother : err ≠ .noMatch := fun heq => SubstituteRequest.settle_ne_noMatch (heq ▸ hsettle)
    exact ⟨_, visited_error hother last⟩

end

end EditM

/-! ## One line after the other -/

/-- No piece that came in is marked. -/
theorem Row.unmarked_pieces {front : List Row} (hfront : ∀ x ∈ front, x.marked = false)
    (pieces : List Bytes) : ∀ x ∈ front ++ pieces.map Row.plain, x.marked = false := by
  intro x hx
  rcases List.mem_append.mp hx with hx | hx
  · exact hfront x hx
  · obtain ⟨_, -, rfl⟩ := List.mem_map.mp hx
    rfl

/-- Where the walk goes on, no row before is marked. -/
theorem Row.unmarked_take {front : List Row} (hfront : ∀ x ∈ front, x.marked = false)
    {pieces : List Bytes} (hne : pieces ≠ []) (back : List Row) (stays : Bool) :
    ∀ x ∈ (front ++ pieces.map Row.plain ++ back).take
      ((if stays then front.length + 1 else front.length + 1 + 1) - 1), x.marked = false := by
  intro x hx
  have hpos := List.length_pos_iff.mpr hne
  have hle : (if stays then front.length + 1 else front.length + 1 + 1) - 1 ≤
      (front ++ pieces.map Row.plain).length := by
    rw [List.length_append, List.length_map]
    split <;> omega
  rw [List.take_append_of_le_length hle] at hx
  exact unmarked_pieces hfront pieces x (List.mem_of_mem_take hx)

/-- When a marked row was rewritten, the rows behind it are what is still to be. -/
theorem Rewriting.pending_middle (rule : Bytes → Revision) {front : List Row} {row : Row}
    (hfront : ∀ x ∈ front, x.marked = false) (hrow : row.marked = true) (back : List Row) :
    let pieces := (rule row.text).pieces row.text
    pending rule 1 (front ++ row :: back) =
        (front.length + 1, pieces) :: pending rule (front.length + 2) back ∧
      pending rule 1 (front ++ pieces.map Row.plain ++ back) =
        (pending rule (front.length + 2) back).map fun c => (c.1 + (pieces.length - 1), c.2) := by
  intro pieces
  have hpos : 1 ≤ pieces.length := List.length_pos_iff.mpr (Revision.pieces_ne_nil _ _)
  constructor
  · rw [pending_unmarked_append hfront, pending_of_marked hrow, Nat.add_comm 1]
  · rw [pending_unmarked_append (Row.unmarked_pieces hfront pieces), ← pending_add,
      List.length_append, List.length_map]
    congr 1
    omega

namespace Engine

section
variable {rule : Bytes → Revision} {limit : Nat} {source template : List Char} {front back : List Row}
  {row : Row} {e e₁ : Engine}

theorem finishes_of_unmarked (h : ∀ row ∈ e.rows, row.marked = false) (report : Report) :
    e.Finishes rule limit source template (.ok report) e := by
  unfold Finishes
  rw [Rewriting.pending_eq_nil h]
  refine ⟨fun row hrow hm => ?_, fun hsome => absurd rfl hsome, .refl e, fun hor => ?_⟩
  · rw [h row hrow] at hm
    cases hm
  · exact hor.resolve_left (absurd rfl)

/-- If the first line cannot be rewritten, they cannot all be. -/
theorem finishes_of_refused (hrows : e.rows = front ++ row :: back)
    (hfront : ∀ x ∈ front, x.marked = false) (hm : row.marked = true)
    (hrefused : ¬((rule row.text).Passes row.text ∧
      e.window.dol + (((rule row.text).pieces row.text).length - 1) ≤ limit))
    (err : EditError) (e' : Engine) :
    e.Finishes rule limit source template (.error err) e' := by
  rintro ⟨hall, hroom⟩
  rw [hrows, (Rewriting.pending_middle rule hfront hm back).1, Rewriting.growth_cons] at hroom
  exact hrefused ⟨hall row (by simp [hrows]) hm, by omega⟩

theorem Rewritten.dol_eq (h : Rewritten rule limit source template front row back e e₁)
    (hrows : e.rows = front ++ row :: back) :
    e₁.window.dol = e.window.dol + (((rule row.text).pieces row.text).length - 1) := by
  have hpos := List.length_pos_iff.mpr (Revision.pieces_ne_nil row.text (rule row.text))
  have hlen := congrArg List.length hrows
  have hlen₁ := congrArg List.length h.rows_eq
  simp only [rows, Pool.length_rows, List.length_append, List.length_cons, List.length_map] at hlen hlen₁
  unfold Window.dol
  omega

/-- What is marked afterwards was marked before, further down. -/
theorem Rewritten.mem_back (h : Rewritten rule limit source template front row back e e₁)
    (hfront : ∀ x ∈ front, x.marked = false) {x : Row} (hx : x ∈ e₁.rows) (hm : x.marked = true) :
    x ∈ back := by
  rw [h.rows_eq] at hx
  refine (List.mem_append.mp hx).resolve_left fun hin => ?_
  rw [Row.unmarked_pieces hfront _ x hin] at hm
  cases hm

theorem Rewritten.passes_iff (h : Rewritten rule limit source template front row back e e₁)
    (hrows : e.rows = front ++ row :: back) (hfront : ∀ x ∈ front, x.marked = false) :
    (∀ x ∈ e.rows, x.marked = true → (rule x.text).Passes x.text) ↔
      ∀ x ∈ e₁.rows, x.marked = true → (rule x.text).Passes x.text := by
  refine ⟨fun hall x hx hm => hall x ?_ hm, fun hall x hx hm => ?_⟩
  · simp [hrows, h.mem_back hfront hx hm]
  · rw [hrows] at hx
    rcases List.mem_append.mp hx with hin | hin
    · rw [hfront x hin] at hm
      cases hm
    · rcases List.mem_cons.mp hin with rfl | hin
      · exact h.passes
      · exact hall x (by simp [h.rows_eq, hin]) hm

/-- After the first line, the others are to be rewritten. -/
theorem Rewritten.finishes (h : Rewritten rule limit source template front row back e e₁)
    (hrows : e.rows = front ++ row :: back) (hfront : ∀ x ∈ front, x.marked = false)
    (hm : row.marked = true) (report : Report) {outcome : Except EditError Report} {e' : Engine}
    (hrest : e₁.Finishes rule limit source template outcome e') :
    e.Finishes rule limit source template (outcome.map report.followedBy) e' := by
  obtain ⟨hpending, hpending₁⟩ := Rewriting.pending_middle rule hfront hm back
  rw [← hrows] at hpending
  rw [← h.rows_eq] at hpending₁
  have hpasses := h.passes_iff hrows hfront
  unfold Finishes at hrest ⊢
  rw [← hpasses, hpending₁, Rewriting.growth_map, h.dol_eq hrows] at hrest
  rw [hpending, Rewriting.growth_cons]
  cases outcome with
  | ok rest =>
    obtain ⟨hall, hroom, hrevised, hclear⟩ := hrest
    refine ⟨hall, fun _ => ?_, h.revised.then hrevised, fun _ => hclear (.inr h.clear)⟩
    by_cases hnil : Rewriting.pending rule (front.length + 2) back = []
    · rw [hnil]
      exact h.room
    · have hfit := hroom (by simpa using hnil)
      omega
  | error err =>
    rintro ⟨hall, hroom⟩
    exact hrest ⟨hall, by omega⟩

end

end Engine

section
variable {replacing body source template : List Char} {all : Bool} {request : SubstituteRequest}

/-- By induction on the walk: in front of where it goes on no line is marked, and each marked line
has a match. -/
theorem Walk.revises {e e' : Engine} {origins origins' : Origins} {n : Nat} {last : Option Nat}
    {visits : List Visit} {outcome : Except EditError Report}
    (hwalk : Walk (SubstituteRequest.again replacing all) e origins n last visits outcome e' origins')
    (ht : Delimited.scan '/' (replacing ++ ['/']) = ⟨body, [], true⟩)
    (h : e.Due source body (SubstituteRequest.whichOf all) request template)
    {rule : Bytes → Revision} (hrule : e.ruleOf request = rule) {limit : Nat}
    (hlimit : e.limits.lines = limit) (hfront : ∀ row ∈ e.rows.take (n - 1), row.marked = false)
    (hchanges : ∀ row ∈ e.rows, row.marked = true → rule row.text ≠ .unchanged) :
    e.Finishes rule limit source template outcome e' := by
  induction hwalk with
  | done hnone =>
    exact Engine.finishes_of_unmarked (fun row => Engine.unmarked_of_done hnone (List.map_id _)) _
  | @stop e e' origins n k last err v hnext hv hrun =>
    obtain ⟨front, row, back, hrows, rfl, hunmarked, hm⟩ := Engine.first_marked_row hnext hfront
    have hchange := hchanges row (by simp [hrows]) hm
    have hvisit := (EditM.visit_again ht h hnext hrows (hrule ▸ hchange) last).of_eq hrun
    rw [hrule, hlimit] at hvisit
    exact Engine.finishes_of_refused hrows hunmarked hm hvisit err e'
  | @next e e₁ e' origins origins' n k last report v visits outcome hnext hv hrun hrest ih =>
    obtain ⟨front, row, back, hrows, rfl, hunmarked, hm⟩ := Engine.first_marked_row hnext hfront
    have hchange := hchanges row (by simp [hrows]) hm
    have hvisit := (EditM.visit_again ht h hnext hrows (hrule ▸ hchange) last).of_eq hrun
    rw [hrule, hlimit] at hvisit
    obtain ⟨hw, hdue, hrewritten⟩ := hvisit
    have hlimits : e₁.limits = e.limits := hw.limits_eq
    refine hrewritten.finishes hrows hunmarked hm report (ih hdue ?_ (hlimits ▸ hlimit) ?_ ?_)
    · rw [← hrule, Engine.ruleOf, Engine.ruleOf, hlimits]
    · rw [hrewritten.rows_eq]
      exact Row.unmarked_take hunmarked (Revision.pieces_ne_nil _ _) back _
    · exact fun x hx hmarked =>
        hchanges x (by simp [hrows, hrewritten.mem_back hunmarked hx hmarked]) hmarked

/-- A walk whose subcommand is not a request that can be made fails at the first marked line. -/
theorem Walk.refused {e e' : Engine} {origins origins' : Origins} {n : Nat} {last : Option Nat}
    {visits : List Visit} {outcome : Except EditError Report}
    (hwalk : Walk (SubstituteRequest.again replacing all) e origins n last visits outcome e' origins')
    (ht : Delimited.scan '/' (replacing ++ ['/']) = ⟨body, [], true⟩) (h : e.Sound)
    (hmode : e.window.mode = .normal) (hcalm : e.interrupted = false)
    (hsearch : e.window.lastSearch = some source) {err : EditError}
    (hsettle : SubstituteRequest.settle e.window e.window.lastReplacement source body
      (SubstituteRequest.whichOf all) = .error err) (hsome : ∃ row ∈ e.rows, row.marked = true) :
    ∃ err, outcome = .error err := by
  cases hwalk with
  | done hnone =>
    obtain ⟨row, hrow, hm⟩ := hsome
    have hunmarked : row.marked = false := Engine.unmarked_of_done hnone (List.map_id _) hrow
    rw [hunmarked] at hm
    cases hm
  | stop => exact ⟨_, rfl⟩
  | next hnext _ hrun =>
    obtain ⟨_, herr⟩ :=
      (EditM.visit_refused ht h hmode hcalm hsearch hsettle hnext last).of_eq hrun
    cases herr

end

end LineEditor
