import LineEditor.Proofs.Substitution

/-!
# Replacing all at once

A line is revised on a walk over its matches, which writes and counts as it goes and may end early.
Here the matches are found first, those to be replaced are chosen among them, and then the new line
is put together. The main statement is that the walk gives that line, or finds it too long.
-/

namespace LineEditor

open Regex (Match)

/-- Match and groups lie in the line, the match not before `start`. -/
structure Regex.Match.FitsIn (m : Match) (start : Nat) (line : Bytes) : Prop where
  start_le : start ≤ m.start
  le_stop : m.start ≤ m.stop
  stop_le : m.stop ≤ line.length
  group_le : ∀ i a b, m.group? i = some (a, b) → a ≤ b ∧ b ≤ line.length

/-- All that is found in the line from some offset on lies there. -/
def Matcher.FitsIn (matcher : Matcher) (line : Bytes) : Prop :=
  ∀ start m, matcher.search line start = some m → m.FitsIn start line

theorem Matcher.Bounded.fitsIn {matcher : Matcher} (h : matcher.Bounded) (line : Bytes) :
    matcher.FitsIn line := by
  intro start m hm
  have hwithin := h line start m hm
  obtain ⟨hstart, hle, hstop⟩ := hwithin 0 m.start m.stop rfl
  refine ⟨hstart, hle, hstop, ?_⟩
  intro i a b hi
  exact (hwithin i a b hi).2

/-! ## What takes the place of a match -/

namespace Template

/-- The bytes of a line from `start` up to `stop`, if they are there. -/
def cut (line : Bytes) (start stop : Nat) : Bytes := (line.drop start).take (stop - start)

def Part.text (line : Bytes) (m : Match) : Part → Bytes
  | literal b => [b]
  | group i =>
    match m.group? i with
    | some (start, stop) => cut line start stop
    | none => []

/-- The expanded template, or what was matched with its case changed. -/
def text (template line : Bytes) (m : Match) : Bytes :=
  match caseShift? template with
  | some shift => shift.apply (cut line m.start m.stop)
  | none => (parts template).flatMap (Part.text line m)

theorem slice_eq {line : Bytes} {start stop : Nat} (h : start ≤ stop) (hstop : stop ≤ line.length) :
    line.slice start stop = .ok (cut line start stop) :=
  Bytes.slice_of_le h hstop

section
variable {line : Bytes} {m : Match} {start : Nat} (hm : m.FitsIn start line)
include hm

theorem Part.expand_eq (part : Part) : part.expand line m = .ok (part.text line m) := by
  cases part with
  | literal b => rfl
  | group i =>
    cases hi : m.group? i with
    | none =>
      simp only [Part.expand, Part.text, hi]
      rfl
    | some ends =>
      obtain ⟨hle, hstop⟩ := hm.group_le i ends.1 ends.2 hi
      simp only [Part.expand, Part.text, hi]
      exact slice_eq hle hstop

theorem replacement_eq (template : Bytes) :
    replacement template line m = .ok (text template line m) := by
  unfold replacement text
  cases caseShift? template with
  | some shift =>
    simp only [slice_eq hm.le_stop hm.stop_le]
    rfl
  | none =>
    have hparts := mapM_ok (l := parts template) fun part _ => Part.expand_eq hm part
    simp only [expand_eq, hparts]
    rfl

end

end Template

/-! ## The matches of a line -/

/-- The matches that are to be replaced, among all matches from the first on. -/
def Occurrence.choose {α : Type} : Occurrence → List α → List α
  | all, ms => ms
  | nth 0, _ => []
  | nth (n + 1), ms => ms[n]?.toList

/-- The same where the first match has the number `k`. -/
def Occurrence.chooseFrom {α : Type} (which : Occurrence) (k : Nat) : List α → List α
  | [] => []
  | m :: ms =>
    if which.wants k then m :: which.chooseFrom (k + 1) ms else which.chooseFrom (k + 1) ms

namespace Occurrence

variable {α : Type}

theorem chooseFrom_all (k : Nat) (ms : List α) : all.chooseFrom k ms = ms := by
  induction ms generalizing k with
  | nil => rfl
  | cons m ms ih => simp [chooseFrom, wants, ih]

theorem chooseFrom_nth (n k : Nat) (ms : List α) :
    (nth n).chooseFrom k ms = if n < k then [] else ms[n - k]?.toList := by
  induction ms generalizing k with
  | nil => simp [chooseFrom]
  | cons m ms ih =>
    simp only [chooseFrom, wants, ih]
    by_cases hk : k = n
    · simp [hk]
    · by_cases hlt : n < k
      · simp [hk, hlt, Nat.lt_succ_of_lt hlt]
      · have hsucc : n - k = n - (k + 1) + 1 := by omega
        simp [hk, hlt, hsucc, show ¬n < k + 1 by omega]

theorem chooseFrom_one (which : Occurrence) (ms : List α) :
    which.chooseFrom 1 ms = which.choose ms := by
  cases which with
  | all => exact chooseFrom_all 1 ms
  | nth n =>
    rw [chooseFrom_nth]
    cases n <;> simp [choose]

/-- Behind the match of a given number there is none to be replaced. -/
theorem chooseFrom_behind {which : Occurrence} (h : which.isSingle = true) {k : Nat}
    (hk : which.wants k = true) (ms : List α) : which.chooseFrom (k + 1) ms = [] := by
  cases which with
  | all => cases h
  | nth n =>
    have hn : k = n := by simpa [wants] using hk
    simp [chooseFrom_nth, hn]

end Occurrence

namespace Substitution

/-- The matches found from `start` on. Each search begins where the match before stops, one byte
further if that match is empty. -/
inductive Meets (matcher : Matcher) (line : Bytes) : Nat → List Match → Prop
  | done {start : Nat} (h : matcher.search line start = none) : Meets matcher line start []
  | next {start : Nat} {m : Match} {ms : List Match} (h : matcher.search line start = some m)
      (hrest : Meets matcher line (if m.start = m.stop then m.stop + 1 else m.stop) ms) :
      Meets matcher line start (m :: ms)

/-- The line from `done` on with a text in place of each match. -/
def rewriteFrom (line : Bytes) (text : Match → Bytes) : Nat → List Match → Bytes
  | done, [] => line.drop done
  | done, m :: ms => Template.cut line done m.start ++ text m ++ rewriteFrom line text m.stop ms

def rewrite (line : Bytes) (text : Match → Bytes) (ms : List Match) : Bytes :=
  rewriteFrom line text 0 ms

section
variable {matcher : Matcher} {line : Bytes}

theorem nextStart_eq (m : Match) :
    nextStart m = if m.start = m.stop then m.stop + 1 else m.stop := by
  unfold nextStart
  by_cases h : m.start = m.stop
  · simp [h]
  · simp [h, Ne.symm h]

theorem Meets.unique {start : Nat} {ms ms' : List Match} (h : Meets matcher line start ms)
    (h' : Meets matcher line start ms') : ms' = ms := by
  induction h generalizing ms' with
  | done hnone =>
    cases h' with
    | done => rfl
    | next hsome =>
      rw [hnone] at hsome
      cases hsome
  | next hsome hrest ih =>
    cases h' with
    | done hnone =>
      rw [hsome] at hnone
      cases hnone
    | next hsome' hrest' =>
      obtain rfl := Option.some.inj (hsome.symm.trans hsome')
      rw [ih hrest']

/-- Every match on the way comes from a search. -/
theorem Meets.found {start : Nat} {ms : List Match} (h : Meets matcher line start ms) {m : Match}
    (hmem : m ∈ ms) : ∃ start', matcher.search line start' = some m := by
  induction h with
  | done => cases hmem
  | next hs _ ih =>
    rcases List.mem_cons.mp hmem with rfl | hmem
    · exact ⟨_, hs⟩
    · exact ih hmem

section
variable (hm : matcher.FitsIn line)
include hm

/-- Each search begins further on, and none that begins behind the line finds anything. -/
theorem exists_meets (start : Nat) : ∃ ms, Meets matcher line start ms := by
  generalize hleft : line.length + 1 - start = left
  induction left using Nat.strong_induction_on generalizing start with
  | _ left ih =>
    cases hs : matcher.search line start with
    | none => exact ⟨[], .done hs⟩
    | some m =>
      obtain ⟨hstart, hle, hstop, -⟩ := hm start m hs
      obtain ⟨next, hnext⟩ : ∃ next, next = if m.start = m.stop then m.stop + 1 else m.stop :=
        ⟨_, rfl⟩
      have hlt : start < next ∧ m.stop ≤ line.length := by
        rw [hnext]
        split <;> omega
      obtain ⟨ms, hms⟩ := ih (line.length + 1 - next) (by omega) next rfl
      rw [hnext] at hms
      exact ⟨m :: ms, .next hs hms⟩

/-- All that is not replaced is copied, each byte once. -/
theorem Meets.rewrite_cut {start : Nat} {ms : List Match} (h : Meets matcher line start ms)
    (which : Occurrence) (k : Nat) {done : Nat} (hdone : done ≤ start) :
    rewriteFrom line (fun m => Template.cut line m.start m.stop) done (which.chooseFrom k ms) =
      line.drop done := by
  have hcut {a b : Nat} (hab : a ≤ b) : Template.cut line a b ++ line.drop b = line.drop a := by
    have hb : a + (b - a) = b := by omega
    rw [Template.cut, ← hb, ← List.drop_drop, hb, List.take_append_drop]
  induction h generalizing k done with
  | done hnone => rfl
  | @next start m ms hs hrest ih =>
    obtain ⟨hstart, hle, -⟩ := hm start m hs
    have hnext : m.stop ≤ if m.start = m.stop then m.stop + 1 else m.stop := by
      split <;> omega
    unfold Occurrence.chooseFrom
    by_cases hw : which.wants k = true
    · rw [if_pos hw, rewriteFrom, ih (k + 1) hnext, List.append_assoc, hcut hle]
      exact hcut (Nat.le_trans hdone hstart)
    · rw [if_neg hw]
      exact ih (k + 1) (by omega)

end

/-! ## The walk -/

namespace Draft

def written (d : Draft) : Bytes := d.pieces.reverse.flatten

@[simp] theorem written_add (d : Draft) (piece : Bytes) (done : Nat) :
    (d.add piece done).written = d.written ++ piece := by
  simp [written, add]

@[simp] theorem size_add (d : Draft) (piece : Bytes) (done : Nat) :
    (d.add piece done).size = d.size + piece.length := rfl

/-- The line up to `done` is written, and the bytes written are counted. -/
structure Counts (d : Draft) (line : Bytes) : Prop where
  done_le : d.done ≤ line.length
  size_eq : d.size = d.written.length

/-- What a walk makes of a draft when `rest` is to come and the matches `ms` are to be replaced. -/
def Becomes (d : Draft) (line : Bytes) (limit : Nat) (rest : Bytes) (ms : List Match) :
    Option Draft → Prop
  | none => limit < (d.written ++ rest).length ∧ ms ≠ []
  | some d' => d'.Counts line ∧ d'.written ++ line.drop d'.done = d.written ++ rest ∧
      (d'.pieces = [] ↔ d.pieces = [] ∧ ms = [])

/-- The draft with the text before a match and what takes its place. -/
def replaced (d : Draft) (line : Bytes) (m : Match) (text : Bytes) : Draft :=
  (d.add (Template.cut line d.done m.start) m.stop).add text m.stop

section
variable {d : Draft} {m : Match} (text : Bytes)

@[simp] theorem written_replaced : (d.replaced line m text).written =
    d.written ++ (Template.cut line d.done m.start ++ text) := by
  simp [replaced]

theorem written_cons (f : Match → Bytes) (ms : List Match) :
    d.written ++ rewriteFrom line f d.done (m :: ms) =
      (d.replaced line m (f m)).written ++ rewriteFrom line f m.stop ms := by
  simp [rewriteFrom]

@[simp] theorem pieces_replaced : (d.replaced line m text).pieces ≠ [] :=
  List.cons_ne_nil _ _

/-- The first of the matches to be replaced is, the others are still to come. -/
theorem Becomes.cons {limit : Nat} {ms : List Match} {f : Match → Bytes} {o : Option Draft}
    (h : (d.replaced line m (f m)).Becomes line limit (rewriteFrom line f m.stop ms) ms o) :
    d.Becomes line limit (rewriteFrom line f d.done (m :: ms)) (m :: ms) o := by
  cases o with
  | none =>
    refine ⟨?_, List.cons_ne_nil _ _⟩
    rw [written_cons]
    exact h.1
  | some d' =>
    obtain ⟨hcounts, heq, hempty⟩ := h
    refine ⟨hcounts, heq.trans (written_cons f ms).symm, ?_⟩
    simp [hempty]

variable {start : Nat} (hfit : m.FitsIn start line)
include hfit

theorem replace_eq (hd : d.done ≤ m.start) :
    d.replace line m text = .ok (d.replaced line m text) := by
  have hslice := Template.slice_eq hd (Nat.le_trans hfit.le_stop hfit.stop_le)
  simp only [replace, hslice]
  rfl

theorem Counts.replaced (hd : d.Counts line) : (d.replaced line m text).Counts line := by
  refine ⟨hfit.stop_le, ?_⟩
  simp [Draft.replaced, hd.size_eq, Nat.add_assoc]

end

end Draft

section
variable (hm : matcher.FitsIn line) (template : Bytes) (which : Occurrence) (limit : Nat)
include hm

/-- By induction on the matches that are still to come. -/
theorem Meets.walk_becomes {start : Nat} {ms : List Match} (h : Meets matcher line start ms)
    (fuel : Nat) (hfuel : line.length + 2 ≤ start + fuel) (seen : Nat) {d : Draft}
    (hd : d.Counts line) (hdone : d.done ≤ start) :
    Succeeds (walk matcher template which limit line fuel start seen d) (d.Becomes line limit
      (rewriteFrom line (Template.text template line) d.done (which.chooseFrom (seen + 1) ms))
      (which.chooseFrom (seen + 1) ms)) := by
  induction h generalizing fuel seen d with
  | @done start hnone =>
    have hself : walk matcher template which limit line fuel start seen d = .ok (some d) := by
      cases fuel with
      | zero => rfl
      | succ fuel =>
        unfold walk
        split
        · rfl
        · rw [searchAt_of_le (by omega), hnone]
          rfl
    rw [hself, Succeeds.ok_iff]
    exact ⟨hd, rfl, by simp [Occurrence.chooseFrom]⟩
  | @next start m ms hs hrest ih =>
    have hfit := hm start m hs
    have hstart := hfit.start_le
    have hle := hfit.le_stop
    have hstop := hfit.stop_le
    have hnext : start < nextStart m ∧ m.stop ≤ nextStart m := by
      unfold nextStart
      split <;> omega
    rw [← nextStart_eq] at ih
    cases fuel with
    | zero => omega
    | succ fuel =>
      have hfuel' : line.length + 2 ≤ nextStart m + fuel := by omega
      unfold walk Occurrence.chooseFrom
      rw [if_neg (by omega), Succeeds.bind_iff, searchAt_of_le (by omega), Succeeds.ok_iff, hs]
      dsimp only
      by_cases hw : which.wants (seen + 1) = true
      · rw [if_pos hw, if_pos hw, Template.replacement_eq hfit]
        simp only [Draft.replace_eq _ hfit (Nat.le_trans hdone hstart), bind, Except.bind]
        have hcounts := hd.replaced (Template.text template line m) hfit
        by_cases hlong : limit < (d.replaced line m (Template.text template line m)).size
        · -- what is still to come makes the line no shorter
          rw [if_pos hlong, Succeeds.pure_iff]
          rw [hcounts.size_eq] at hlong
          refine ⟨?_, List.cons_ne_nil _ _⟩
          rw [Draft.written_cons, List.length_append]
          omega
        · rw [if_neg hlong]
          by_cases hone : which.isSingle = true
          · rw [if_pos hone, Succeeds.pure_iff, Occurrence.chooseFrom_behind hone hw]
            refine .cons ⟨hcounts, rfl, ?_⟩
            simp
          · rw [if_neg hone]
            refine (ih fuel hfuel' (seen + 1) hcounts hnext.2).mono ?_
            intro o ho
            exact ho.cons
      · rw [if_neg hw, if_neg hw]
        exact ih fuel hfuel' (seen + 1) hd (by omega)

/-- What becomes of a line, put together from its matches. -/
theorem Meets.apply_eq {ms : List Match} (hms : Meets matcher line 0 ms) :
    apply matcher template which limit line =
      .ok (if which.choose ms = [] then .unchanged
        else if (rewrite line (Template.text template line) (which.choose ms)).length ≤ limit then
          .replaced (rewrite line (Template.text template line) (which.choose ms))
        else .tooLong) := by
  have hstart : Draft.start.Counts line := ⟨Nat.zero_le _, rfl⟩
  obtain ⟨o, hwalk, ho⟩ := hms.walk_becomes hm template which limit
    (line.length + 2) (by omega) 0 hstart (Nat.le_refl 0)
  rw [Occurrence.chooseFrom_one] at ho
  change Draft.start.Becomes line limit (rewrite line (Template.text template line)
    (which.choose ms)) (which.choose ms) o at ho
  unfold apply
  rw [hwalk]
  simp only [bind, Except.bind]
  generalize rewrite line (Template.text template line) (which.choose ms) = out at ho
  cases o with
  | none =>
    obtain ⟨hlong, hsome⟩ := ho
    have hlong : limit < out.length := hlong
    rw [if_neg hsome, if_neg (by omega)]
    rfl
  | some d =>
    obtain ⟨hd, hout, hempty⟩ := ho
    have hout : d.written ++ line.drop d.done = out := hout
    dsimp only
    by_cases hnone : which.choose ms = []
    · have hp : d.pieces = [] := hempty.mpr ⟨rfl, hnone⟩
      rw [if_pos hnone, hp]
      rfl
    · have hp : d.pieces ≠ [] := fun he => hnone (hempty.mp he).2
      have htail : Template.cut line d.done line.length = line.drop d.done := by
        simp [Template.cut]
      have hfinish : d.finish line = .ok out := by
        simp only [Draft.finish, Template.slice_eq hd.done_le (Nat.le_refl _), htail]
        exact congrArg Except.ok hout
      rw [if_neg hnone, if_neg (by simpa using hp), hfinish]
      dsimp only
      by_cases hlong : limit < out.length
      · rw [if_pos hlong, if_neg (by omega)]
        rfl
      · rw [if_neg hlong, if_pos (by omega)]
        rfl

/-- A walk gives the line with all chosen matches replaced, or finds it too long. -/
theorem apply_eq_rewrite : ∃ ms, Meets matcher line 0 ms ∧
    (∀ ms', Meets matcher line 0 ms' → ms' = ms) ∧
    rewrite line (fun m => Template.cut line m.start m.stop) (which.choose ms) = line ∧
    apply matcher template which limit line =
      .ok (if which.choose ms = [] then .unchanged
        else if (rewrite line (Template.text template line) (which.choose ms)).length ≤ limit then
          .replaced (rewrite line (Template.text template line) (which.choose ms))
        else .tooLong) := by
  obtain ⟨ms, hms⟩ := exists_meets hm 0
  have hcopy := hms.rewrite_cut hm which 1 (Nat.le_refl 0)
  rw [Occurrence.chooseFrom_one] at hcopy
  exact ⟨ms, hms, fun ms' => hms.unique, hcopy, hms.apply_eq hm template which limit⟩

end

end

open Regex in
/-- A run of the letter `a` matches the empty text behind a run before it, and at the end. -/
theorem apply_rewrites_runs :
    let matcher : Matcher := ⟨(Code.ofNode (.repeated (.bytes [97]) 0 none true)).search⟩
    matcher.FitsIn [98, 97, 97, 99] ∧
      apply matcher [45] .all 100 [98, 97, 97, 99] = .ok (.replaced [45, 98, 45, 45, 99, 45]) := by
  intro matcher
  obtain ⟨types, htyped⟩ := Code.ofNode_typed (.repeated (.bytes [97]) 0 none true)
  have hbounded : matcher.Bounded := fun line start r => Code.search_within htyped
  have hm := hbounded.fitsIn [98, 97, 97, 99]
  obtain ⟨ms, -, hunique, -, happly⟩ := apply_eq_rewrite hm [45] .all 100
  have hmeets : Meets matcher [98, 97, 97, 99] 0
      [⟨0, 0, []⟩, ⟨1, 3, []⟩, ⟨3, 3, []⟩, ⟨4, 4, []⟩] :=
    .next (by decide +kernel) (.next (by decide +kernel) (.next (by decide +kernel)
      (.next (by decide +kernel) (.done (by decide +kernel)))))
  rw [← hunique _ hmeets] at happly
  exact ⟨hm, happly.trans (by decide +kernel)⟩

end Substitution

end LineEditor
