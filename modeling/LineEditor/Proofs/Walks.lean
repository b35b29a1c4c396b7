import LineEditor.Proofs.GlobalCommands
import LineEditor.Proofs.Leads
import LineEditor.Proofs.Origins

/-!
# Walks

The visits of a global command, without a bound on their number. Each takes a mark away and none is
set, so a walk is no longer than there are marks, and it goes on while there is one. The lines that
were marked are told apart by their origins: no subcommand gets a line twice, nor one that came in
on the way.
-/

namespace LineEditor

namespace LineMap

theorem nextMarkedBehind?_marked {m : LineMap} {before n : Nat}
    (h : m.nextMarkedBehind? before = some n) : ∃ x, m[n - 1]? = some x ∧ x.marked = true := by
  unfold nextMarkedBehind? at h
  obtain ⟨i, hi, rfl⟩ := Option.map_eq_some_iff.mp h
  obtain ⟨hlt, hm, -⟩ := List.findIdx?_eq_some_iff_getElem.mp hi
  refine ⟨(m.drop before)[i], ?_, hm⟩
  rw [Nat.add_sub_cancel, ← List.getElem?_drop, List.getElem?_eq_getElem hlt]

theorem nextMarked?_marked {m : LineMap} {n k : Nat} (h : m.nextMarked? n = some k) :
    ∃ x, m[k - 1]? = some x ∧ x.marked = true := by
  unfold nextMarked? at h
  cases hb : m.nextMarkedBehind? (n - 1) with
  | some j =>
    rw [hb] at h
    cases h
    exact nextMarkedBehind?_marked hb
  | none =>
    rw [hb] at h
    exact nextMarkedBehind?_marked h

theorem unmarked_of_nextMarked? {m : LineMap} {n : Nat} (h : m.nextMarked? n = none) :
    m.Unmarked := by
  have hnone : m.nextMarkedBehind? 0 = none := by
    unfold nextMarked? at h
    cases hb : m.nextMarkedBehind? (n - 1) with
    | some j =>
      rw [hb] at h
      cases h
    | none =>
      rw [hb] at h
      exact h
  unfold nextMarkedBehind? at hnone
  rw [Option.map_eq_none_iff, List.drop_zero, List.findIdx?_eq_none_iff] at hnone
  exact fun x hx => hnone x hx

/-- In front of the line that is visited next no line is marked, if none is where the walk goes on. -/
theorem unmarked_before {m : LineMap} {n k : Nat} (hnext : m.nextMarked? n = some k)
    (hfront : ∀ x ∈ m.take (n - 1), x.marked = false) : ∀ x ∈ m.take (k - 1), x.marked = false := by
  have hbehind {before : Nat} (hb : m.nextMarkedBehind? before = some k)
      (hfront : ∀ x ∈ m.take before, x.marked = false) : ∀ x ∈ m.take (k - 1), x.marked = false := by
    unfold nextMarkedBehind? at hb
    obtain ⟨i, hi, rfl⟩ := Option.map_eq_some_iff.mp hb
    obtain ⟨_, -, hless⟩ := List.findIdx?_eq_some_iff_getElem.mp hi
    intro x hx
    rw [Nat.add_sub_cancel, List.take_add, List.mem_append] at hx
    rcases hx with hx | hx
    · exact hfront x hx
    · obtain ⟨j, hj, rfl⟩ := List.mem_take_iff_getElem.mp hx
      exact Bool.eq_false_iff.mpr (hless j (by omega))
  unfold nextMarked? at hnext
  cases hb : m.nextMarkedBehind? (n - 1) with
  | some j =>
    rw [hb] at hnext
    cases hnext
    exact hbehind hb hfront
  | none =>
    rw [hb] at hnext
    exact hbehind hnext (by simp)

end LineMap

namespace Engine

/-- The rows of the current window. -/
def rows (e : Engine) : List Row := e.pool.rows e.window.lines

/-- Line `n` is handed out: it loses its mark and becomes the current line. -/
def handOut (e : Engine) (n : Nat) : Engine := e.setWindow ((e.window.setMark n false).setDot n)

end Engine

namespace EditM

/-- What a subcommand comes to on the current line. -/
def planSubcommand (text : List Char) : EditM Plan := do
  let line ← liftExcept (CommandLine.parse text)
  let cmd ← liftExcept (identify line.letter)
  liftExcept (checkMode (← get).window.mode cmd)
  let lineCmd ← liftExcept (checkGlobal cmd)
  let range ← query fun v => v.locate true cmd line.range
  query fun v => v.plan lineCmd range line.tail

theorem runSubcommand_eq (text : List Char) :
    runSubcommand text = planSubcommand text >>= carryOut true := by
  unfold runSubcommand planSubcommand runLine
  rw [CommandLine.lift_read]
  simp only [bind_assoc]

end EditM

/-- The edit that a plan makes, if it makes one. -/
def Plan.edit? : Plan → Option Edit
  | .edit change _ _ => some change
  | _ => none

namespace Engine

/-- The edit that a subcommand comes to, if it comes to one. -/
def editOf? (e : Engine) (text : List Char) : Option Edit :=
  match e.run (EditM.planSubcommand text) with
  | .ok (.ok plan, _) => plan.edit?
  | _ => none

/-- The rows when a subcommand is done. -/
def rowsAfter (e : Engine) (text : List Char) : List Row :=
  ((e.editOf? text).map fun change => change.rows e.rows).getD e.rows

end Engine

/-- A line is handed to the subcommand. -/
structure Visit where
  /-- The engine that the subcommand meets. -/
  engine : Engine
  line : Nat
  /-- Where the lines of the window stood when they were marked. -/
  origins : Origins

namespace Visit

/-- Where the line that is handed out stood. -/
def origin (v : Visit) : Option Nat := v.origins[v.line - 1]?.join

/-- The origins of the lines when the subcommand is done. -/
def originsAfter (v : Visit) (text : List Char) : Origins :=
  ((v.engine.editOf? text).map fun change => change.origins v.origins).getD v.origins

end Visit

/-- Marked lines are visited one after the other, until none is left or a subcommand fails. The
numbers are those that the loop carries: where to look for the next line, and which line was changed
last. -/
inductive Walk (text : List Char) : Engine → Origins → Nat → Option Nat → List Visit →
    Except EditError Report → Engine → Origins → Prop
  | done {e : Engine} {origins : Origins} {n : Nat} {last : Option Nat}
      (hnone : e.window.lines.nextMarked? n = none) :
      Walk text e origins n last [] (.ok .clean) e origins
  | stop {e e' : Engine} {origins : Origins} {n k : Nat} {last : Option Nat} {err : EditError}
      {v : Visit} (hnext : e.window.lines.nextMarked? n = some k) (hv : v = ⟨e.handOut k, k, origins⟩)
      (hrun : e.run (EditM.visit text k last) = .ok (.error err, e')) :
      Walk text e origins n last [v] (.error err) e' (v.originsAfter text)
  | next {e e₁ e' : Engine} {origins origins' : Origins} {n k : Nat} {last : Option Nat}
      {report : Report} {v : Visit} {visits : List Visit} {outcome : Except EditError Report}
      (hnext : e.window.lines.nextMarked? n = some k) (hv : v = ⟨e.handOut k, k, origins⟩)
      (hrun : e.run (EditM.visit text k last) = .ok (.ok report, e₁))
      (hrest : Walk text e₁ (v.originsAfter text) (if report.shapeChanged then k else k + 1)
        (if report.changed then some e₁.window.dot else last) visits outcome e' origins') :
      Walk text e origins n last (v :: visits) (outcome.map report.followedBy) e' origins'

namespace EditM

section
variable {e : Engine}

/-! ## One visit -/

theorem planSubcommand_ends (h : e.Sound) (text : List Char) :
    Ends (planSubcommand text) e fun answer e' => e.Recalled e' ∧
      ∀ plan, answer = .ok plan → plan.Fits e.window.dol := by
  have hsame (err : EditError) : e.Recalled e ∧
      ∀ plan, (.error err : Except EditError Plan) = .ok plan → plan.Fits e.window.dol :=
    ⟨⟨e.remembered, rfl, id⟩, fun plan hp => by cases hp⟩
  unfold planSubcommand
  refine (CommandLine.parse_reads text).then (fun line _ => ?_) fun err _ => hsame err
  refine (identify_reads line.letter).then (fun cmd _ => ?_) fun err _ => hsame err
  rw [ends_get_bind]
  refine (checkMode_reads _ cmd).then (fun _ _ => ?_) fun err _ => hsame err
  refine (checkGlobal_reads cmd).then (fun lineCmd hcmd => ?_) fun err _ => hsame err
  refine (query_ends (View.locate_yields h.readable true cmd line.range)).then ?_ ?_
  · rintro range e₁ ⟨⟨r, rfl, hi⟩, hr, hz⟩
    rw [hcmd] at hz
    have hreadable : (e.withRecall r).view.Readable := h.readable
    refine (query_ends (View.plan_yields hreadable hr hz line.tail)).mono fun answer e₂ hq => ?_
    obtain ⟨⟨r₂, rfl, hi₂⟩, hreads⟩ := hq
    refine ⟨⟨r₂, rfl, hi ∘ hi₂⟩, fun plan hp => ?_⟩
    subst hp
    exact hreads.fits
  · rintro err e₁ ⟨hrec, -⟩
    exact ⟨hrec, fun plan hp => by cases hp⟩

theorem ends_goto_bind {n : Nat} (hn : n ≤ e.window.dol) {f : Unit → EditM β} {post : Post Engine β} :
    Ends (goto n >>= f) e post ↔ Ends (f ()) (e.setWindow (e.window.setDot n)) post := by
  have hgoto : Ends (goto n) e (post.after fun a e' => Ends (f a) e' post) ↔
      Ends (f ()) (e.setWindow (e.window.setDot n)) post := by
    unfold goto onWindow
    rw [ends_get_bind, ends_bind, ends_lift]
    dsimp only
    rw [Window.goto_of_le hn]
    exact Succeeds.ok_iff.trans ends_set
  rw [ends_bind]
  exact hgoto

/-- How a visit comes out when its subcommand does so. That nothing matches is no failure. -/
def visited (last : Option Nat) : Except EditError Report → Except EditError Report
  | .ok report => .ok report
  | .error .noMatch => .ok .clean
  | .error cause => .error (.partialGlobalFailure cause last)

theorem visited_error {err : EditError} (h : err ≠ .noMatch) (last : Option Nat) :
    visited last (.error err) = .error (.partialGlobalFailure err last) := by
  cases err <;> first | rfl | exact absurd rfl h

/-- The subcommand is run on the line handed out. -/
theorem ends_visit {k : Nat} (hk : k ≤ e.window.dol) {text : List Char} {last : Option Nat}
    {post : Post Engine Report} : Ends (visit text k last) e post ↔
      Ends (planSubcommand text >>= carryOut true) (e.handOut k)
        fun answer e' => post (visited last answer) e' := by
  have hsize : k ≤ (e.setWindow (e.window.setMark k false)).window.dol := by
    rw [Engine.dol_setMark]
    exact hk
  unfold visit
  rw [ends_modifyWindow_bind, ends_goto_bind hsize, ends_bind, ends_attempt, runSubcommand_eq]
  refine iff_of_eq (congrArg (Ends _ _) (funext₂ fun answer e' => propext ?_))
  rw [Post.after_ok]
  split
  · exact ends_pure
  · exact ends_pure
  · rename_i err hne
    rw [visited_error hne]
    exact ends_throw

theorem edit_rows (h : e.Sound) {change : Edit} (hfit : change.Fits e.window.dol) :
    Ends (edit change) e (.sure fun _ e' => e'.rows = change.rows e.rows) := by
  unfold edit onWindow
  rw [ends_bind, ends_get_bind]
  simp only [ends_bind, ends_lift, Post.after_ok, ends_set]
  refine (Edit.perform_shows h.accounts hfit).mono fun r hr => ends_modify.mpr ?_
  show r.2.rows r.1.noteEdit.lines = change.rows (e.pool.rows e.window.lines)
  rw [← hr.rows_eq]
  unfold Window.noteEdit
  split <;> rfl

/-- The rows when a plan is carried out. -/
theorem carryOut_rows (h : e.Sound) (hn : e.entry = none) {plan : Plan} (hfit : plan.Fits e.window.dol) :
    Ends (carryOut true plan) e fun _ e' => e'.rows = ((plan.edit?.map fun change =>
      change.rows e.rows).getD e.rows) := by
  cases plan with
  | look dot output =>
    unfold carryOut
    cases dot with
    | none => exact ends_pure.mpr rfl
    | some n => exact (ends_goto_bind hfit.2).mpr (ends_pure.mpr rfl)
  | label name line =>
    unfold carryOut
    rw [ends_modifyWindow_bind, ends_pure]
    show e.pool.rows ((e.window.setLabel name line).getD e.window).lines = e.pool.rows e.window.lines
    rw [Window.setLabel_lines]
  | edit change shape print =>
    unfold carryOut
    have hedit := (edit_ends h hn hfit).and (edit_rows h hfit).leads
    refine hedit.then ?_ fun _ _ hf => hf.1.elim
    rintro _ e₁ ⟨hw, hrows⟩
    refine (printDot_ends hw.sound print).sure_then fun _ e₂ he => ends_pure.mpr ?_
    rw [he]
    exact hrows

theorem runSubcommand_rows (h : e.Sound) (hn : e.entry = none) (text : List Char) :
    Ends (runSubcommand text) e fun _ e' => e'.rows = e.rowsAfter text := by
  obtain ⟨⟨answer, e₁⟩, hrun, hrec, hfit⟩ := planSubcommand_ends h text
  have hplan : Ends (planSubcommand text) e fun answer' e' => answer' = answer ∧ e' = e₁ :=
    ⟨_, hrun, rfl, rfl⟩
  have hsound := (hrec.worked h hn).sound
  have hn₁ := (hrec.worked h hn).untyped hn
  have hrun' : e.run (planSubcommand text) = .ok (answer, e₁) := hrun
  obtain ⟨r, rfl, -⟩ := hrec
  unfold Engine.rowsAfter Engine.editOf?
  rw [runSubcommand_eq, hrun']
  refine hplan.then ?_ ?_
  · rintro plan _ ⟨rfl, rfl⟩
    exact carryOut_rows hsound hn₁ (hfit plan rfl)
  · rintro err _ ⟨rfl, rfl⟩
    rfl

end

end EditM

namespace Engine

section
variable {e : Engine} {n : Nat}

theorem editOf?_fits (h : e.Sound) {text : List Char} {change : Edit}
    (he : e.editOf? text = some change) : change.Fits e.window.dol := by
  obtain ⟨⟨answer, e₁⟩, hrun, -, hfit⟩ := EditM.planSubcommand_ends h text
  have hrun' : e.run (EditM.planSubcommand text) = .ok (answer, e₁) := hrun
  unfold editOf? at he
  rw [hrun'] at he
  cases answer with
  | error err => cases he
  | ok plan =>
    have hplan := hfit plan rfl
    cases plan with
    | edit change' shape print =>
      cases he
      exact hplan
    | look dot output => cases he
    | label name line => cases he

theorem countP_rows (e : Engine) : e.rows.countP Row.marked = e.window.lines.markedCount :=
  List.countP_map

theorem rows_handOut (h : e.Sound) (n : Nat) :
    (e.handOut n).rows = Sequence.update e.rows n Row.unmark :=
  (Window.setMark_shows h.accounts n false).rows_eq

theorem Sound.worked_handOut (h : e.Sound) (h₁ : 1 ≤ n) (hn : n ≤ e.window.dol) :
    e.Worked (e.handOut n) := by
  have hmark := h.worked_unmark n
  have hn' : n ≤ (e.window.setMark n false).dol := (e.dol_setMark n false).symm ▸ hn
  exact hmark.trans (hmark.sound.worked_window rfl (hmark.sound.consistent.setDot h₁ hn') rfl id)

theorem marked_row {k : Nat} (h : e.window.lines.nextMarked? n = some k) :
    ∃ row, e.rows[k - 1]? = some row ∧ row.marked = true := by
  obtain ⟨x, hx, hm⟩ := LineMap.nextMarked?_marked h
  refine ⟨e.pool.row x, ?_, hm⟩
  unfold rows Pool.rows
  rw [List.getElem?_map, hx]
  rfl

section
variable {n : Nat} {α : Type} {row : α → Row} {l : List α}

/-- No row is marked, whatever stands beside the rows. -/
theorem unmarked_of_done (hnone : e.window.lines.nextMarked? n = none) (hl : l.map row = e.rows)
    {x : α} (hx : x ∈ l) : (row x).marked = false := by
  obtain ⟨y, hy, heq⟩ := List.mem_map.mp (hl ▸ List.mem_map_of_mem hx : row x ∈ e.rows)
  rw [← heq]
  exact LineMap.unmarked_of_nextMarked? hnone y hy

/-- The line that is visited next is the first that is marked. -/
theorem first_marked {k : Nat} (hnext : e.window.lines.nextMarked? n = some k)
    (hl : l.map row = e.rows) (hfront : ∀ x ∈ l.take (n - 1), (row x).marked = false) :
    ∃ front x back, l = front ++ x :: back ∧ k = front.length + 1 ∧
      (∀ y ∈ front, (row y).marked = false) ∧ (row x).marked = true := by
  obtain ⟨h₁, hdol⟩ := LineMap.nextMarked?_le hnext
  obtain ⟨found, hrow, hm⟩ := Engine.marked_row hnext
  have hmarks : l.map (fun x => (row x).marked) = e.window.lines.map Entry.marked := by
    show l.map (Row.marked ∘ row) = _
    rw [← List.map_map, hl]
    unfold Engine.rows Pool.rows
    rw [List.map_map]
    rfl
  have hall {count : Nat} : (∀ x ∈ l.take count, (row x).marked = false) ↔
      ∀ y ∈ e.window.lines.take count, y.marked = false := by
    have htake : (l.take count).map (fun x => (row x).marked) =
        (e.window.lines.take count).map Entry.marked := by
      rw [List.map_take, List.map_take, hmarks]
    have hiff : (∀ b ∈ (l.take count).map (fun x => (row x).marked), b = false) ↔
        ∀ b ∈ (e.window.lines.take count).map Entry.marked, b = false := by rw [htake]
    simpa only [List.forall_mem_map] using hiff
  rw [← hl, List.getElem?_map, Option.map_eq_some_iff] at hrow
  obtain ⟨x, hx, rfl⟩ := hrow
  obtain ⟨hlt, hget⟩ := List.getElem?_eq_some_iff.mp hx
  refine ⟨l.take (k - 1), x, l.drop (k - 1 + 1), ?_, ?_, ?_, hm⟩
  · rw [← hget, List.getElem_cons_drop hlt, List.take_append_drop]
  · rw [List.length_take_of_le (Nat.le_of_lt hlt), Nat.sub_add_cancel h₁]
  · exact hall.mpr (LineMap.unmarked_before hnext (hall.mp hfront))

theorem first_marked_row {k : Nat} (hnext : e.window.lines.nextMarked? n = some k)
    (hfront : ∀ x ∈ e.rows.take (n - 1), x.marked = false) :
    ∃ front x back, e.rows = front ++ x :: back ∧ k = front.length + 1 ∧
      (∀ y ∈ front, y.marked = false) ∧ x.marked = true :=
  first_marked hnext (List.map_id e.rows) hfront

end

end

end Engine

namespace EditM

section
variable {e e₁ : Engine} {text : List Char} {n k : Nat} {last : Option Nat}
  {answer : Except EditError Report}

theorem visit_rows (h : e.Sound) (hn : e.entry = none) (h₁ : 1 ≤ n) (hdol : n ≤ e.window.dol)
    (text : List Char) (last : Option Nat) :
    Ends (visit text n last) e fun _ e' => e'.rows = (e.handOut n).rowsAfter text := by
  have hhand := h.worked_handOut h₁ hdol
  rw [ends_visit hdol, ← runSubcommand_eq]
  exact runSubcommand_rows hhand.sound (hhand.untyped hn) text

theorem visit_of_next (h : e.Sound) (hn : e.entry = none)
    (hnext : e.window.lines.nextMarked? n = some k) (text : List Char) (last : Option Nat) :
    Ends (visit text k last) e fun _ e' =>
      e.Worked e' ∧ e'.rows = (e.handOut k).rowsAfter text := by
  obtain ⟨h₁, hdol⟩ := LineMap.nextMarked?_le hnext
  refine ((visit_ends h hn h₁ hdol text last).and (visit_rows h hn h₁ hdol text last).leads).mono ?_
  rintro answer e' ⟨hvisits, hrows⟩
  refine ⟨?_, hrows⟩
  cases answer with
  | ok report => exact hvisits
  | error err => exact hvisits.1

/-- There is one mark less, or still fewer, after a visit. -/
theorem countP_rowsAfter_lt (h : e.Sound) (hnext : e.window.lines.nextMarked? n = some k) (text : List Char) :
    ((e.handOut k).rowsAfter text).countP Row.marked < e.rows.countP Row.marked := by
  obtain ⟨h₁, hdol⟩ := LineMap.nextMarked?_le hnext
  obtain ⟨row, hrow, hm⟩ := Engine.marked_row hnext
  have hhand : (e.handOut k).rows.countP Row.marked + 1 = e.rows.countP Row.marked := by
    rw [Engine.rows_handOut h, ← Nat.sub_add_cancel h₁]
    exact Sequence.countP_update hrow hm rfl
  have hafter : ((e.handOut k).rowsAfter text).countP Row.marked ≤
      (e.handOut k).rows.countP Row.marked := by
    unfold Engine.rowsAfter
    cases hedit : (e.handOut k).editOf? text with
    | none => exact Nat.le_refl _
    | some change =>
      exact Edit.countP_marked_le _ (Engine.editOf?_fits (h.worked_handOut h₁ hdol).sound hedit)
  omega

end

end EditM

/-! ## Whole walks -/

section
variable {e e' : Engine} {text : List Char} {origins origins' : Origins} {n : Nat} {last : Option Nat}
  {visits : List Visit} {outcome : Except EditError Report}

/-- By induction on the number of marks. -/
theorem exists_walk (h : e.Sound) (hn : e.entry = none) (text : List Char) (origins : Origins)
    (n : Nat) (last : Option Nat) : ∃ visits outcome e' origins',
      Walk text e origins n last visits outcome e' origins' ∧
        visits.length ≤ e.rows.countP Row.marked := by
  generalize hcount : e.rows.countP Row.marked = count
  induction count using Nat.strong_induction_on generalizing e origins n last with
  | _ count ih =>
    cases hnext : e.window.lines.nextMarked? n with
    | none => exact ⟨[], .ok .clean, e, origins, .done hnext, Nat.zero_le _⟩
    | some k =>
      obtain ⟨⟨answer, e₁⟩, hrun, hw, hrows⟩ := EditM.visit_of_next h hn hnext text last
      have hless := EditM.countP_rowsAfter_lt h hnext text
      rw [← hrows, hcount] at hless
      cases answer with
      | error err =>
        refine ⟨_, _, _, _, .stop hnext rfl hrun, ?_⟩
        rw [List.length_singleton]
        omega
      | ok report =>
        obtain ⟨visits, outcome, e', origins', hwalk, hlen⟩ :=
          ih _ hless hw.sound (hw.untyped hn) (Visit.originsAfter ⟨e.handOut k, k, origins⟩ text)
            (if report.shapeChanged then k else k + 1)
            (if report.changed then some e₁.window.dot else last) rfl
        refine ⟨_, _, _, _, .next hnext rfl hrun hwalk, ?_⟩
        rw [List.length_cons]
        exact Nat.lt_of_le_of_lt hlen hless

/-- The loop takes the same way as long as it may make as many visits. -/
theorem Walk.ends (hwalk : Walk text e origins n last visits outcome e' origins') {fuel : Nat}
    (hfuel : visits.length ≤ fuel) :
    Ends (EditM.visitMarked text fuel n last) e fun answer e'' => answer = outcome ∧ e'' = e' := by
  induction hwalk generalizing fuel with
  | done hnone =>
    cases fuel with
    | zero => exact ends_pure.mpr ⟨rfl, rfl⟩
    | succ fuel =>
      unfold EditM.visitMarked
      rw [ends_get_bind, hnone]
      exact ends_pure.mpr ⟨rfl, rfl⟩
  | @stop e e' origins n k last err v hnext hv hrun =>
    cases fuel with
    | zero => exact absurd hfuel (by simp)
    | succ fuel =>
      have hvisit : Ends (EditM.visit text k last) e fun a s => a = .error err ∧ s = e' :=
        ⟨_, hrun, rfl, rfl⟩
      unfold EditM.visitMarked
      rw [ends_get_bind, hnext]
      refine hvisit.then ?_ ?_
      · rintro report _ ⟨⟨⟩, -⟩
      · rintro _ _ ⟨⟨⟩, rfl⟩
        exact ⟨rfl, rfl⟩
  | @next e e₁ e' origins origins' n k last report v visits outcome hnext hv hrun hrest ih =>
    cases fuel with
    | zero => exact absurd hfuel (by simp)
    | succ fuel =>
      have hvisit : Ends (EditM.visit text k last) e fun a s => a = .ok report ∧ s = e₁ :=
        ⟨_, hrun, rfl, rfl⟩
      unfold EditM.visitMarked
      rw [ends_get_bind, hnext]
      refine hvisit.then ?_ ?_
      · rintro _ _ ⟨⟨⟩, rfl⟩
        rw [ends_get_bind]
        refine (ih (Nat.le_of_succ_le_succ hfuel)).then ?_ ?_
        · rintro rest _ ⟨rfl, rfl⟩
          exact ends_pure.mpr ⟨rfl, rfl⟩
        · rintro err _ ⟨rfl, rfl⟩
          exact ⟨rfl, rfl⟩
      · rintro err _ ⟨⟨⟩, -⟩

/-- The subcommand meets, on the current line, a row that was marked and now is not. -/
structure Visit.Meets (start : List Row) (v : Visit) : Prop where
  dot_eq : v.engine.window.dot = v.line
  row : ∃ i row, v.origin = some i ∧ start[i]? = some row ∧ row.marked = true ∧
    v.engine.rows[v.line - 1]? = some row.unmark

section
variable {start : List Row} {handed : List Nat} {k : Nat}

/-- A marked line is handed out, and the subcommand keeps track of the others. -/
theorem Tracks.visit (ht : Tracks start handed e.rows origins) (h : e.Sound)
    (hnext : e.window.lines.nextMarked? n = some k) {v : Visit} (hv : v = ⟨e.handOut k, k, origins⟩)
    (text : List Char) : ∃ i, v.origin = some i ∧ i ∉ handed ∧ v.Meets start ∧
      Tracks start (i :: handed) (v.engine.rowsAfter text) (v.originsAfter text) := by
  subst hv
  obtain ⟨h₁, hdol⟩ := LineMap.nextMarked?_le hnext
  obtain ⟨row, hrow, hm⟩ := Engine.marked_row hnext
  obtain ⟨i, hi, hnot, hstart⟩ := ht.origin_of_marked hrow hm
  have horigin : Visit.origin ⟨e.handOut k, k, origins⟩ = some i := by
    unfold Visit.origin
    rw [hi]
    rfl
  have hrows : (e.handOut k).rows = Sequence.update e.rows (k - 1 + 1) Row.unmark := by
    rw [Engine.rows_handOut h, Nat.sub_add_cancel h₁]
  have hthen := ht.hand hi
  rw [← hrows] at hthen
  refine ⟨i, horigin, hnot, ⟨rfl, i, row, horigin, hstart, hm, ?_⟩, ?_⟩
  · rw [hrows]
    show (e.rows.modify (k - 1) Row.unmark)[k - 1]? = _
    rw [List.getElem?_modify, hrow]
    simp
  · unfold Engine.rowsAfter Visit.originsAfter
    dsimp only
    cases hedit : (e.handOut k).editOf? text with
    | none => exact hthen
    | some change =>
      exact hthen.edit (Engine.editOf?_fits (h.worked_handOut h₁ hdol).sound hedit)

/-- Along a walk marked rows are handed out, each once, and none that is not tracked. -/
theorem Walk.tracks (hwalk : Walk text e origins n last visits outcome e' origins') (h : e.Sound)
    (hn : e.entry = none) (hnodup : handed.Nodup) (ht : Tracks start handed e.rows origins) :
    ∃ visited : List Nat, visits.map Visit.origin = visited.map some ∧
      (visited.reverse ++ handed).Nodup ∧ (∀ v ∈ visits, v.Meets start) ∧
      Tracks start (visited.reverse ++ handed) e'.rows origins' ∧
      ∀ report, outcome = .ok report → ∀ row ∈ e'.rows, row.marked = false := by
  induction hwalk generalizing handed with
  | done hnone =>
    refine ⟨[], rfl, hnodup, by simp, ht, fun _ _ row hrow => ?_⟩
    obtain ⟨x, hx, rfl⟩ := List.mem_map.mp hrow
    exact LineMap.unmarked_of_nextMarked? hnone x hx
  | @stop e e' origins n k last err v hnext hv hrun =>
    obtain ⟨i, hi, hnot, hmeets, hthen⟩ := ht.visit h hnext hv text
    obtain ⟨-, hrows⟩ := (EditM.visit_of_next h hn hnext text last).of_eq hrun
    refine ⟨[i], by simp [hi], List.nodup_cons.mpr ⟨hnot, hnodup⟩, by simpa using hmeets, ?_, ?_⟩
    · subst hv
      rw [hrows]
      exact hthen
    · intro _ hok
      cases hok
  | @next e e₁ e' origins origins' n k last report v visits outcome hnext hv hrun hrest ih =>
    obtain ⟨i, hi, hnot, hmeets, hthen⟩ := ht.visit h hnext hv text
    obtain ⟨hw, hrows⟩ := (EditM.visit_of_next h hn hnext text last).of_eq hrun
    have hthen₁ : Tracks start (i :: handed) e₁.rows (v.originsAfter text) := by
      subst hv
      rw [hrows]
      exact hthen
    obtain ⟨visited, horigins, hnodup', hall, hend, hok⟩ :=
      ih hw.sound (hw.untyped hn) (List.nodup_cons.mpr ⟨hnot, hnodup⟩) hthen₁
    have hlist : (i :: visited).reverse ++ handed = visited.reverse ++ i :: handed := by simp
    refine ⟨i :: visited, by simp [hi, horigins], hlist ▸ hnodup', ?_, hlist ▸ hend, ?_⟩
    · exact List.forall_mem_cons.mpr ⟨hmeets, hall⟩
    · intro _ hmap
      cases outcome with
      | ok rest => exact hok rest rfl
      | error err => cases hmap

end

end

end LineEditor
