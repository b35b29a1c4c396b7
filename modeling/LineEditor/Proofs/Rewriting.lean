import LineEditor.Proofs.Bulk
import LineEditor.Proofs.Places

/-!
# Rewriting lines

Lines that are each rewritten on their own become one or more. In a window this is done from top to
bottom, and what comes later has moved by then. Here the lines, labels and dot that come out are
compared with what is asked of each line: line `n` stands at its place, which counts the lines added
above, labels name the first of its pieces, and dot is on the last piece written.
-/

namespace LineEditor

/-! ## Lines that become pieces -/

namespace Revision

/-- What stands where the line stood. -/
def pieces (line : Bytes) : Revision → List Bytes
  | replaced new => Bytes.splitOn Bytes.newline new
  | _ => [line]

def isReplaced : Revision → Bool
  | replaced _ => true
  | _ => false

/-- The line may become this: it is not too long, and its tokens are what they were. -/
def Passes (line : Bytes) : Revision → Prop
  | unchanged => True
  | tooLong => False
  | replaced new => Markup.sameTokens line new = true

theorem pieces_ne_nil (line : Bytes) (r : Revision) : r.pieces line ≠ [] := by
  cases r with
  | replaced new => exact Bytes.splitOn_ne_nil _ _
  | _ => exact List.cons_ne_nil _ _

theorem pieces_of_kept (line : Bytes) {r : Revision} (h : r.isReplaced = false) :
    r.pieces line = [line] := by
  cases r with
  | replaced new => cases h
  | _ => rfl

theorem eq_unchanged {line : Bytes} {r : Revision} (h : r.Passes line)
    (hkept : r.isReplaced = false) : r = .unchanged := by
  cases r with
  | unchanged => rfl
  | tooLong => exact h.elim
  | replaced new => cases hkept

end Revision

namespace Rewriting

variable (rule : Bytes → Revision)

/-- What becomes of lines, each on its own. -/
def rewritten (lines : List Bytes) : List Bytes := lines.flatMap fun line => (rule line).pieces line

/-- The number of lines by which lines grow. -/
def added (lines : List Bytes) : Nat :=
  (lines.map fun line => ((rule line).pieces line).length - 1).sum

/-- The text in which lines `start` to `stop` are rewritten. -/
def result (l : List Bytes) (start stop : Nat) : List Bytes :=
  l.take (start - 1) ++ rewritten rule (Sequence.run l start stop) ++ l.drop stop

/-- Where line `n` then stands, or the first of its pieces. -/
def place (l : List Bytes) (start stop n : Nat) : Nat :=
  n + added rule ((Sequence.run l start stop).take (n - start))

/-- What then stands there. -/
def becomes (start stop n : Nat) (line : Bytes) : List Bytes :=
  if start ≤ n ∧ n ≤ stop then (rule line).pieces line else [line]

/-- The lines that change with what they become, the first of all lines being line `start`. -/
def changes (start : Nat) : List Bytes → List (Nat × List Bytes)
  | [] => []
  | line :: rest =>
    if (rule line).isReplaced then (start, (rule line).pieces line) :: changes (start + 1) rest
    else changes (start + 1) rest

section
variable {rule}

theorem added_cons (line : Bytes) (rest : List Bytes) :
    added rule (line :: rest) = ((rule line).pieces line).length - 1 + added rule rest := by
  unfold added
  rw [List.map_cons, List.sum_cons]

theorem length_rewritten (lines : List Bytes) :
    (rewritten rule lines).length = lines.length + added rule lines := by
  induction lines with
  | nil => rfl
  | cons line rest ih =>
    have hpos := List.length_pos_iff.mpr ((rule line).pieces_ne_nil line)
    have hcons : rewritten rule (line :: rest) = (rule line).pieces line ++ rewritten rule rest :=
      List.flatMap_cons
    rw [hcons, List.length_append, ih, added_cons, List.length_cons]
    omega

theorem length_result {l : List Bytes} {start stop : Nat} (h₁ : 1 ≤ start) (hs : start ≤ stop)
    (hstop : stop ≤ l.length) : (result rule l start stop).length =
      l.length + added rule (Sequence.run l start stop) := by
  have hrun := Sequence.length_run l h₁ hs hstop
  unfold result
  rw [List.length_append, List.length_append, length_rewritten, hrun, List.length_take,
    List.length_drop]
  omega

/-- A line or its pieces stand together where the line is said to stand. -/
theorem becomes_isPrefix {l : List Bytes} {start stop : Nat} (h₁ : 1 ≤ start) (hs : start ≤ stop)
    (hstop : stop ≤ l.length) {n : Nat} {line : Bytes} (hn : 1 ≤ n) (hline : l[n - 1]? = some line) :
    becomes rule start stop n line <+:
      (result rule l start stop).drop (place rule l start stop n - 1) := by
  have hrun := Sequence.length_run l h₁ hs hstop
  have hfront : (l.take (start - 1)).length = start - 1 := List.length_take_of_le (by omega)
  have hsingle {k : Nat} (hk : (result rule l start stop)[k]? = some line) :
      [line] <+: (result rule l start stop).drop k := by
    obtain ⟨hlt, rfl⟩ := List.getElem?_eq_some_iff.mp hk
    rw [List.drop_eq_getElem_cons hlt]
    exact ⟨_, rfl⟩
  unfold becomes
  by_cases hin : start ≤ n ∧ n ≤ stop
  · rw [if_pos hin]
    -- the lines before it in the run, and those behind it
    have hat : (Sequence.run l start stop)[n - start]? = some line := by
      rw [Sequence.getElem?_run l h₁ hin.1 hin.2, hline]
    obtain ⟨hlt, hget⟩ := List.getElem?_eq_some_iff.mp hat
    have hsplit : rewritten rule (Sequence.run l start stop) =
        rewritten rule ((Sequence.run l start stop).take (n - start)) ++ ((rule line).pieces line ++
          rewritten rule ((Sequence.run l start stop).drop (n - start + 1))) := by
      conv_lhs => rw [← List.take_append_drop (n - start) (Sequence.run l start stop),
        List.drop_eq_getElem_cons hlt, hget]
      unfold rewritten
      rw [List.flatMap_append, List.flatMap_cons]
    have hbefore : (l.take (start - 1) ++
        rewritten rule ((Sequence.run l start stop).take (n - start))).length =
          place rule l start stop n - 1 := by
      rw [List.length_append, hfront, length_rewritten, List.length_take, place]
      omega
    unfold result
    rw [hsplit, ← List.append_assoc (l.take (start - 1)), List.append_assoc,
      List.drop_left' hbefore]
    exact ⟨_, (List.append_assoc _ _ _).symm⟩
  · rw [if_neg hin]
    refine hsingle ?_
    unfold result place
    by_cases hbefore : n < start
    · rw [Nat.sub_eq_zero_of_le (Nat.le_of_lt hbefore), List.take_zero]
      show (_ ++ _)[n + 0 - 1]? = _
      rw [Nat.add_zero, List.append_assoc, List.getElem?_append_left (by omega),
        List.getElem?_take_of_lt (by omega)]
      exact hline
    · have hall : (Sequence.run l start stop).take (n - start) = Sequence.run l start stop :=
        List.take_of_length_le (by omega)
      have hlen : (l.take (start - 1) ++ rewritten rule (Sequence.run l start stop)).length =
          stop + added rule (Sequence.run l start stop) := by
        rw [List.length_append, hfront, length_rewritten, hrun]
        omega
      rw [hall, List.getElem?_append_right (by omega), hlen, List.getElem?_drop, ← hline]
      congr 1
      omega

theorem not_all_unchanged {lines : List Bytes} (h : ∃ line ∈ lines, (rule line).isReplaced = true) :
    ¬∀ line ∈ lines, rule line = .unchanged := by
  intro hall
  obtain ⟨line, hmem, hreplaced⟩ := h
  rw [hall line hmem] at hreplaced
  cases hreplaced

theorem changes_of_kept {line : Bytes} (h : (rule line).isReplaced = false) (start : Nat)
    (rest : List Bytes) : changes rule start (line :: rest) = changes rule (start + 1) rest := by
  rw [changes, h]
  rfl

theorem changes_of_replaced {line : Bytes} (h : (rule line).isReplaced = true) (start : Nat)
    (rest : List Bytes) : changes rule start (line :: rest) =
      (start, (rule line).pieces line) :: changes rule (start + 1) rest := by
  rw [changes, h]
  rfl

theorem mem_changes {lines : List Bytes} {start : Nat} {c : Nat × List Bytes}
    (hc : c ∈ changes rule start lines) :
    start ≤ c.1 ∧ c.1 < start + lines.length ∧ c.2 ≠ [] := by
  induction lines generalizing start with
  | nil => cases hc
  | cons line rest ih =>
    rw [List.length_cons]
    cases hr : (rule line).isReplaced with
    | false =>
      rw [changes_of_kept hr] at hc
      obtain ⟨hle, hlt, hne⟩ := ih hc
      exact ⟨by omega, by omega, hne⟩
    | true =>
      rw [changes_of_replaced hr] at hc
      rcases List.mem_cons.mp hc with rfl | hc
      · exact ⟨Nat.le_refl _, by omega, Revision.pieces_ne_nil _ _⟩
      · obtain ⟨hle, hlt, hne⟩ := ih hc
        exact ⟨by omega, by omega, hne⟩

theorem sum_changes (lines : List Bytes) (start : Nat) :
    ((changes rule start lines).map fun c => c.2.length - 1).sum = added rule lines := by
  induction lines generalizing start with
  | nil => rfl
  | cons line rest ih =>
    rw [added_cons, ← ih (start + 1)]
    cases hr : (rule line).isReplaced with
    | false =>
      rw [changes_of_kept hr, Revision.pieces_of_kept line hr, List.length_singleton, Nat.sub_self,
        Nat.zero_add]
    | true => rw [changes_of_replaced hr, List.map_cons, List.sum_cons]

theorem changes_eq_nil_iff {lines : List Bytes} {start : Nat} :
    changes rule start lines = [] ↔ ∀ line ∈ lines, (rule line).isReplaced = false := by
  induction lines generalizing start with
  | nil => simp [changes]
  | cons line rest ih =>
    rw [List.forall_mem_cons]
    cases hr : (rule line).isReplaced with
    | false => simp [changes_of_kept hr, ih]
    | true => simp [changes_of_replaced hr]

/-! ## The rows, labels and dot that come out -/

/-- The rows before the first of `lines` are done with, and grew by `shift` on the way. -/
theorem texts_reviseRows (rule : Bytes → Revision) (front rows back : List Row) {start shift : Nat}
    (hplace : front.length + 1 = start + shift) :
    (Window.reviseRows (front ++ rows ++ back) shift
      (changes rule start (rows.map Row.text))).map Row.text =
      front.map Row.text ++ rewritten rule (rows.map Row.text) ++ back.map Row.text := by
  induction rows generalizing front start shift with
  | nil =>
    show (front ++ [] ++ back).map Row.text = _
    rw [List.append_nil, List.map_append]
    exact congrArg (· ++ _) (List.append_nil _).symm
  | cons row rows ih =>
    have hcons : rewritten rule ((row :: rows).map Row.text) =
        (rule row.text).pieces row.text ++ rewritten rule (rows.map Row.text) := List.flatMap_cons
    rw [List.map_cons] at hcons ⊢
    rw [hcons]
    cases hr : (rule row.text).isReplaced with
    | false =>
      have hnext : (front ++ [row]).length + 1 = start + 1 + shift := by
        rw [List.length_append, List.length_singleton]
        omega
      have h := ih (front ++ [row]) hnext
      rw [changes_of_kept hr, Revision.pieces_of_kept row.text hr]
      simpa using h
    | true =>
      generalize hpieces : (rule row.text).pieces row.text = pieces
      have hpos : 1 ≤ pieces.length := by
        rw [← hpieces]
        exact List.length_pos_iff.mpr (Revision.pieces_ne_nil _ _)
      have hsplice : Sequence.splice (front ++ row :: rows ++ back) (start + shift - 1) 1
          (pieces.map Row.plain) = front ++ pieces.map Row.plain ++ rows ++ back := by
        rw [← hplace, Nat.add_sub_cancel, List.append_assoc, List.cons_append,
          Sequence.splice_middle, List.append_assoc _ rows]
      have hnext : (front ++ pieces.map Row.plain).length + 1 =
          start + 1 + (shift + (pieces.length - 1)) := by
        rw [List.length_append, List.length_map]
        omega
      have h := ih (front ++ pieces.map Row.plain) hnext
      rw [changes_of_replaced hr, hpieces, Window.reviseRows, hsplice, h, List.map_append,
        Row.map_text_plain]
      simp

/-- The rows of a range are revised. -/
theorem texts_reviseRun (rule : Bytes → Revision) (rows : List Row) {start stop : Nat}
    (h₁ : 1 ≤ start) (hs : start ≤ stop) (hstop : stop ≤ rows.length) :
    (Window.reviseRows rows 0 (changes rule start
      (Sequence.run (rows.map Row.text) start stop))).map Row.text =
      result rule (rows.map Row.text) start stop := by
  have hfront : (rows.take (start - 1)).length + 1 = start + 0 := by
    rw [List.length_take]
    omega
  have hsplit : rows.take (start - 1) ++ Sequence.run rows start stop ++ rows.drop stop = rows := by
    rw [List.append_assoc, Sequence.run_append_drop rows h₁ hs, List.take_append_drop]
  have h := texts_reviseRows rule _ (Sequence.run rows start stop) (rows.drop stop) hfront
  rwa [hsplit, Sequence.map_run, List.map_take, List.map_drop] at h

section
variable {w w' : Window} {p p' : Pool}

/-- The first of `lines` is on line `start + shift` by now, and labels with it. -/
theorem labels_reviseLines {lines : List Bytes} {start shift : Nat}
    (h : w.reviseLines p shift (changes rule start lines) = .ok (w', p')) (name : Char) :
    w'.labels.get? name = (w.labels.get? name).map fun m =>
      m + added rule (lines.take (m - (start + shift))) := by
  -- on the lines; a line that changes moves all that is below it, the labels and the lines to come
  induction lines generalizing w p start shift with
  | nil =>
    cases h
    simp [added]
  | cons line rest ih =>
    have htake {m : Nat} (hm : start + shift < m) : added rule ((line :: rest).take (m - (start + shift))) =
        ((rule line).pieces line).length - 1 + added rule (rest.take (m - (start + 1 + shift))) := by
      rw [show m - (start + shift) = m - (start + 1 + shift) + 1 by omega, List.take_succ_cons,
        added_cons]
    have hnone {m k : Nat} (l : List Bytes) (hm : m ≤ k) : added rule (l.take (m - k)) = 0 := by
      rw [Nat.sub_eq_zero_of_le hm, List.take_zero]
      rfl
    cases hr : (rule line).isReplaced with
    | false =>
      rw [changes_of_kept hr] at h
      rw [ih h]
      refine Option.map_congr fun m _ => ?_
      by_cases hm : start + shift < m
      · rw [htake hm, Revision.pieces_of_kept line hr, List.length_singleton, Nat.sub_self,
          Nat.zero_add]
      · rw [hnone _ (by omega), hnone _ (by omega)]
    | true =>
      rw [changes_of_replaced hr] at h
      obtain ⟨w₁, p₁, hrevise, h⟩ := Window.reviseLines_cons h
      have hfirst := Window.reviseLine_labels (Revision.pieces_ne_nil _ _) hrevise name
      rw [ih h]
      show (w₁.labels.get? name).map _ = _
      rw [hfirst, Option.map_map]
      refine Option.map_congr fun m _ => ?_
      dsimp only [Function.comp_apply]
      by_cases hm : start + shift < m
      · rw [if_pos hm, htake hm]
        generalize ((rule line).pieces line).length - 1 = more
        rw [show m + more - (start + 1 + (shift + more)) = m - (start + 1 + shift) by omega,
          Nat.add_assoc]
      · rw [if_neg hm, hnone _ (by omega), hnone _ (by omega)]

/-- Dot is on the last piece of the last line that changes. -/
theorem dot_reviseLines {lines : List Bytes} {start shift : Nat}
    (h : w.reviseLines p shift (changes rule start lines) = .ok (w', p'))
    (hsome : ∃ line ∈ lines, (rule line).isReplaced = true) : ∃ k line, lines[k]? = some line ∧
      (rule line).isReplaced = true ∧
      (∀ (j : Nat) later, k < j → lines[j]? = some later → (rule later).isReplaced = false) ∧
      w'.dot = start + k + shift + added rule (lines.take k) +
        (((rule line).pieces line).length - 1) := by
  induction lines generalizing w p start shift with
  | nil =>
    obtain ⟨_, hmem, -⟩ := hsome
    cases hmem
  | cons line rest ih =>
    have hbelow {k : Nat} (hlast : ∀ (j : Nat) later, k < j → rest[j]? = some later →
        (rule later).isReplaced = false) (j : Nat) (later : Bytes) (hj : k + 1 < j)
        (hlater : (line :: rest)[j]? = some later) : (rule later).isReplaced = false := by
      obtain ⟨j, rfl⟩ : ∃ i, j = i + 1 := ⟨j - 1, by omega⟩
      exact hlast j later (by omega) hlater
    cases hr : (rule line).isReplaced with
    | false =>
      rw [changes_of_kept hr] at h
      obtain ⟨k, last, hk, hrep, hlast, hdot⟩ := ih h (by simpa [hr] using hsome)
      refine ⟨k + 1, last, hk, hrep, hbelow hlast, ?_⟩
      rw [hdot, List.take_succ_cons, added_cons, Revision.pieces_of_kept line hr,
        List.length_singleton]
      omega
    | true =>
      rw [changes_of_replaced hr] at h
      obtain ⟨w₁, p₁, -, h⟩ := Window.reviseLines_cons h
      have hpos := List.length_pos_iff.mpr ((rule line).pieces_ne_nil line)
      by_cases hrest : ∃ line ∈ rest, (rule line).isReplaced = true
      · obtain ⟨k, last, hk, hrep, hlast, hdot⟩ := ih h hrest
        refine ⟨k + 1, last, hk, hrep, hbelow hlast, ?_⟩
        rw [hdot, List.take_succ_cons, added_cons]
        omega
      · have hkept : ∀ line ∈ rest, (rule line).isReplaced = false := by simpa using hrest
        rw [changes_eq_nil_iff.mpr hkept] at h
        cases h
        refine ⟨0, line, rfl, hr, fun j later hj hlater => ?_, ?_⟩
        · obtain ⟨j, rfl⟩ : ∃ i, j = i + 1 := ⟨j - 1, by omega⟩
          exact hkept later (List.mem_of_getElem? hlater)
        · show start + shift + _ - 1 = _
          rw [List.take_zero]
          show _ = start + 0 + shift + 0 + _
          omega

/-- With the lines of a range, dot is on the last piece of the last one that changes. -/
theorem dot_reviseRun {l : List Bytes} {start stop : Nat} (h₁ : 1 ≤ start) (hs : start ≤ stop)
    (hstop : stop ≤ l.length)
    (h : w.reviseLines p 0 (changes rule start (Sequence.run l start stop)) = .ok (w', p'))
    (hsome : ∃ line ∈ Sequence.run l start stop, (rule line).isReplaced = true) :
    ∃ n line, start ≤ n ∧ n ≤ stop ∧ l[n - 1]? = some line ∧ (rule line).isReplaced = true ∧
      (∀ m later, n < m → m ≤ stop → l[m - 1]? = some later → (rule later).isReplaced = false) ∧
      w'.dot = place rule l start stop n + (((rule line).pieces line).length - 1) := by
  have hrun := Sequence.length_run l h₁ hs hstop
  obtain ⟨k, line, hk, hreplaced, hlast, hdot⟩ := dot_reviseLines h hsome
  have hlt := (List.getElem?_eq_some_iff.mp hk).1
  have hline : l[start + k - 1]? = some line := by
    rw [← Sequence.getElem?_run l h₁ (by omega : start ≤ start + k) (by omega : start + k ≤ stop),
      Nat.add_sub_cancel_left, hk]
  refine ⟨start + k, line, by omega, by omega, hline, hreplaced, ?_, ?_⟩
  · intro m later hm hmstop hlater
    refine hlast (m - start) later (by omega) ?_
    rw [Sequence.getElem?_run l h₁ (by omega) hmstop, hlater]
  · rw [place, Nat.add_sub_cancel_left]
    exact hdot

end

end

end Rewriting

end LineEditor
