import LineEditor.Proofs.Exchange
import LineEditor.Proofs.Markup

/-!
# Blobs and their lines

Cutting a blob into lines and joining lines into a blob undo each other. What is asked of the lines is
that there is no newline in them, and of the last one that it is not empty when no newline follows
it: a blob cannot tell such a line from none.
-/

namespace LineEditor

namespace Bytes

theorem splitOn_eq (sep : UInt8) (s : Bytes) : splitOn sep s = List.splitOn sep s := by
  induction s with
  | nil => rfl
  | cons b s ih =>
    unfold splitOn
    rw [List.splitOn_cons_eq_if_modifyHead, ih]
    by_cases hb : b = sep
    · rw [if_pos hb, if_pos (beq_iff_eq.mpr hb)]
    · rw [if_neg hb, if_neg (by simpa using hb)]
      cases hs : List.splitOn sep s with
      | nil => exact absurd (ih.trans hs) (splitOn_ne_nil sep s)
      | cons piece pieces => rfl

theorem splitOn_intercalate {sep : UInt8} {lines : List Bytes} (h : ∀ l ∈ lines, sep ∉ l)
    (hne : lines ≠ []) : splitOn sep (List.intercalate [sep] lines) = lines := by
  rw [splitOn_eq, List.splitOn_intercalate sep h hne]

theorem not_mem_of_mem_splitOn {sep : UInt8} {s piece : Bytes} (h : piece ∈ splitOn sep s) :
    sep ∉ piece := by
  induction s generalizing piece with
  | nil =>
    rw [List.mem_singleton.mp h]
    exact List.not_mem_nil
  | cons b s ih =>
    unfold splitOn at h
    by_cases hb : b = sep
    · rw [if_pos hb] at h
      rcases List.mem_cons.mp h with rfl | h
      · exact List.not_mem_nil
      · exact ih h
    · rw [if_neg hb] at h
      cases hs : splitOn sep s with
      | nil => exact absurd hs (splitOn_ne_nil sep s)
      | cons first rest =>
        rw [hs] at h
        rcases List.mem_cons.mp h with rfl | h
        · rw [List.mem_cons, not_or]
          exact ⟨Ne.symm hb, ih (hs ▸ List.mem_cons_self)⟩
        · exact ih (hs ▸ List.mem_cons_of_mem _ h)

theorem intercalate_append (sep : Bytes) {l m : List Bytes} (hl : l ≠ []) (hm : m ≠ []) :
    List.intercalate sep (l ++ m) = List.intercalate sep l ++ sep ++ List.intercalate sep m := by
  induction l with
  | nil => exact absurd rfl hl
  | cons a l ih =>
    cases l with
    | nil =>
      obtain ⟨b, m, rfl⟩ := List.exists_cons_of_ne_nil hm
      simp [List.intercalate_cons_cons]
    | cons b l =>
      rw [List.cons_append, List.cons_append, List.intercalate_cons_cons, ← List.cons_append,
        ih (List.cons_ne_nil _ _), List.intercalate_cons_cons]
      simp only [List.append_assoc]

theorem getLast?_intercalate (sep : Bytes) (lines : List Bytes) {last : Bytes} (hne : last ≠ []) :
    (List.intercalate sep (lines ++ [last])).getLast? = last.getLast? := by
  cases lines with
  | nil => simp
  | cons a lines =>
    rw [intercalate_append sep (List.cons_ne_nil _ _) (List.cons_ne_nil _ _), List.getLast?_append,
      List.intercalate_singleton]
    cases hl : last.getLast? with
    | none => exact absurd (List.getLast?_eq_none_iff.mp hl) hne
    | some b => rfl

end Bytes

namespace Blob

theorem endsLine_append_newline (s : Bytes) : endsLine (s ++ [Bytes.newline]) = true := by
  simp [endsLine]

theorem endsLine_eq_false_iff {blob : Bytes} :
    endsLine blob = false ↔ ∃ b, blob.getLast? = some b ∧ b ≠ Bytes.newline := by
  unfold endsLine
  cases blob.getLast? with
  | none => simp
  | some b => simp

theorem dropLast_of_endsLine {blob : Bytes} (h : endsLine blob = true) (hne : blob ≠ []) :
    blob.dropLast ++ [Bytes.newline] = blob := by
  refine List.dropLast_append_getLast? _ ?_
  unfold endsLine at h
  cases hl : blob.getLast? with
  | none => exact absurd (List.getLast?_eq_none_iff.mp hl) hne
  | some b =>
    rw [hl] at h
    rw [eq_of_beq h]
    rfl

section
variable {blob : Bytes}

theorem split_lines (hne : blob ≠ []) : (split blob).lines =
    Bytes.splitOn Bytes.newline (if endsLine blob then blob.dropLast else blob) := by
  unfold split
  rw [if_neg (by simpa using hne)]

theorem split_lines_ne_nil (hne : blob ≠ []) : (split blob).lines ≠ [] := by
  rw [split_lines hne]
  exact Bytes.splitOn_ne_nil _ _

theorem mem_splitOn_of_mem_split {line : Bytes} (h : line ∈ (split blob).lines) :
    ∃ s, line ∈ Bytes.splitOn Bytes.newline s := by
  by_cases hne : blob = []
  · rw [hne] at h
    cases h
  · rw [split_lines hne] at h
    exact ⟨_, h⟩

theorem intercalate_split (hne : blob ≠ []) :
    List.intercalate [Bytes.newline] (split blob).lines =
      if endsLine blob then blob.dropLast else blob := by
  rw [split_lines hne, Bytes.intercalate_splitOn]

theorem join_split_true (hne : blob ≠ []) :
    join (split blob).lines true = if endsLine blob then blob else blob ++ [Bytes.newline] := by
  have hlines : (split blob).lines.isEmpty = false := by simpa using split_lines_ne_nil hne
  unfold join
  rw [intercalate_split hne, hlines]
  by_cases h : endsLine blob = true
  · rw [if_pos h, if_pos h]
    exact dropLast_of_endsLine h hne
  · rw [if_neg h, if_neg h]
    rfl

theorem join_split (blob : Bytes) : join (split blob).lines (split blob).finalNewline = blob := by
  by_cases hne : blob = []
  · rw [hne]
    rfl
  · have hfinal : (split blob).finalNewline = endsLine blob := rfl
    rw [hfinal]
    cases h : endsLine blob with
    | true => rw [join_split_true hne, if_pos h]
    | false =>
      unfold join
      rw [intercalate_split hne, h]
      simp

/-- Lines and size together tell a blob. -/
theorem eq_of_split {blob' : Bytes} (hlines : (split blob).lines = (split blob').lines)
    (hlength : blob.length = blob'.length) : blob = blob' := by
  have hjoin := join_split blob
  have hjoin' := join_split blob'
  rw [hlines] at hjoin
  generalize (split blob').lines = lines at hjoin hjoin'
  by_cases hne : lines = []
  · rw [← hjoin, ← hjoin', hne]
    simp [join]
  · have hsize (final : Bool) : (join lines final).length =
        (List.intercalate [Bytes.newline] lines).length + final.toNat := by
      cases final <;> simp [join, hne]
    have hfinal : (split blob).finalNewline = (split blob').finalNewline := by
      rw [← hjoin, ← hjoin', hsize, hsize] at hlength
      have hnat := Nat.add_left_cancel hlength
      cases hf : (split blob).finalNewline <;> cases hf' : (split blob').finalNewline <;>
        simp_all
    rw [← hjoin, ← hjoin', hfinal]

theorem getLast?_split_ne_nil (h : (split blob).finalNewline = false) {last : Bytes}
    (hlast : (split blob).lines.getLast? = some last) : last ≠ [] := by
  rintro rfl
  obtain ⟨b, hb, hnl⟩ := endsLine_eq_false_iff.mp h
  obtain ⟨front, hlines⟩ := List.getLast?_eq_some_iff.mp hlast
  -- joined again, the blob would end in the newline before the empty line
  have hjoin := join_split blob
  rw [h, hlines] at hjoin
  cases front with
  | nil =>
    have hnil : blob = [] := by simpa [join] using hjoin.symm
    rw [hnil] at hb
    cases hb
  | cons a front =>
    rw [join, Bytes.intercalate_append _ (List.cons_ne_nil _ _) (List.cons_ne_nil _ _)] at hjoin
    rw [← hjoin] at hb
    exact hnl (by simpa using hb.symm)

theorem hasNul_split (blob : Bytes) : (split blob).hasNul = true ↔ 0 ∈ blob := by
  simp [split]

end

section
variable {lines : List Bytes}

theorem join_eq_nil_iff (final : Bool) : join lines final = [] ↔
    lines = [] ∨ (lines = [[]] ∧ final = false) := by
  unfold join
  cases lines with
  | nil => simp
  | cons a lines =>
    cases lines with
    | nil => cases final <;> simp
    | cons b lines => simp [List.intercalate_cons_cons]

/-- What a blob cannot tell apart: an empty last line without a newline, and none. -/
def Tells (lines : List Bytes) (final : Bool) : Prop :=
  final = false → ∃ last, lines.getLast? = some last ∧ last ≠ []

theorem endsLine_join (hnl : ∀ l ∈ lines, Bytes.newline ∉ l) {final : Bool}
    (h : Tells lines final) : endsLine (join lines final) = final := by
  cases final with
  | true =>
    cases hl : lines.isEmpty with
    | true =>
      rw [List.isEmpty_iff.mp hl]
      rfl
    | false =>
      unfold join
      rw [hl]
      exact endsLine_append_newline _
  | false =>
    obtain ⟨last, hlast, hne⟩ := h rfl
    obtain ⟨front, rfl⟩ := List.getLast?_eq_some_iff.mp hlast
    rw [endsLine_eq_false_iff]
    obtain ⟨b, hb⟩ := Option.ne_none_iff_exists'.mp (mt List.getLast?_eq_none_iff.mp hne)
    refine ⟨b, ?_, ?_⟩
    · simp only [join, Bool.false_and, Bool.false_eq_true, if_false, List.append_nil]
      rw [Bytes.getLast?_intercalate _ _ hne, hb]
    · rintro rfl
      exact hnl last (by simp) (List.mem_of_getLast? hb)

theorem split_join (hnl : ∀ l ∈ lines, Bytes.newline ∉ l) {final : Bool} (h : Tells lines final) :
    (split (join lines final)).lines = lines ∧ (split (join lines final)).finalNewline = final := by
  have hends := endsLine_join hnl h
  refine ⟨?_, hends⟩
  by_cases hnil : lines = []
  · subst hnil
    have hjoin : join [] final = [] := (join_eq_nil_iff final).mpr (.inl rfl)
    rw [hjoin]
    rfl
  · -- of lines that are joined to nothing, `Tells` leaves none but the empty list
    have hne : join lines final ≠ [] := by
      intro hjoin
      rcases (join_eq_nil_iff final).mp hjoin with h' | ⟨rfl, hf⟩
      · exact hnil h'
      · obtain ⟨last, hlast, hl⟩ := h hf
        cases hlast
        exact hl rfl
    have hempty : lines.isEmpty = false := by simpa using hnil
    rw [split_lines hne, hends]
    cases final with
    | true =>
      simp only [join, hempty, Bool.not_false, Bool.and_self, if_true]
      rw [List.dropLast_concat, Bytes.splitOn_intercalate hnl hnil]
    | false =>
      simp only [join, Bool.false_and, Bool.false_eq_true, if_false, List.append_nil]
      exact Bytes.splitOn_intercalate hnl hnil

/-- The lines that are joined come back just if the blob can tell them. -/
theorem split_join_iff (hnl : ∀ l ∈ lines, Bytes.newline ∉ l) {final : Bool} :
    (split (join lines final)).lines = lines ∧ (split (join lines final)).finalNewline = final ↔
      Tells lines final := by
  refine ⟨?_, fun h => split_join hnl h⟩
  rintro ⟨hlines, hfinal⟩ hfalse
  cases hlast : lines.getLast? with
  | none =>
    -- nothing is joined to an empty blob, which is taken to end a line
    have hempty : lines = [] := List.getLast?_eq_none_iff.mp hlast
    rw [hempty, (join_eq_nil_iff final).mpr (.inl rfl), hfalse] at hfinal
    cases hfinal
  | some last =>
    refine ⟨last, rfl, getLast?_split_ne_nil (hfinal.trans hfalse) ?_⟩
    rw [hlines]
    exact hlast

theorem tells_iff {final : Bool} :
    Tells lines final ↔ ¬(final = false ∧ (lines = [] ∨ lines.getLast? = some [])) := by
  unfold Tells
  cases hlast : lines.getLast? with
  | none => simp [List.getLast?_eq_none_iff.mp hlast]
  | some last =>
    have hne : lines ≠ [] := by
      rintro rfl
      cases hlast
    simp [hne]

theorem join_append {m : List Bytes} (hl : lines ≠ []) (hm : m ≠ []) (final : Bool) :
    join (lines ++ m) final = join lines true ++ join m final := by
  have hl' : lines.isEmpty = false := by simpa using hl
  have hm' : m.isEmpty = false := by simpa using hm
  simp [join, Bytes.intercalate_append _ hl hm, hl', hm', hl]

theorem zero_mem_join (final : Bool) : 0 ∈ join lines final ↔ ∃ l ∈ lines, 0 ∈ l := by
  have hsep : (0 : UInt8) ≠ Bytes.newline := by decide
  have hmid : (0 : UInt8) ∈ List.intercalate [Bytes.newline] lines ↔ ∃ l ∈ lines, 0 ∈ l := by
    induction lines with
    | nil => simp
    | cons a lines ih =>
      cases lines with
      | nil => simp
      | cons b lines =>
        rw [List.intercalate_cons_cons, List.mem_append, List.mem_append, List.mem_singleton, ih]
        simp [hsep]
  unfold join
  rw [List.mem_append, hmid, or_iff_left]
  split
  · simpa using hsep
  · simp

end

/-- Cutting a blob into lines, joining lines and counting them agree: every blob comes back from its
lines, which are as many as are counted and have no newline in them, and lines without newlines come
back from their blob, unless none or an empty one was to stand last without a newline. -/
theorem lines_agree :
    (∀ blob, join (split blob).lines (split blob).finalNewline = blob ∧
      countLines blob = (split blob).lines.length ∧
      ∀ l ∈ (split blob).lines, Bytes.newline ∉ l) ∧
    ∀ lines final, (∀ l ∈ lines, Bytes.newline ∉ l) →
      ((split (join lines final)).lines = lines ∧ (split (join lines final)).finalNewline = final ↔
        ¬(final = false ∧ (lines = [] ∨ lines.getLast? = some []))) := by
  refine ⟨fun blob => ⟨join_split blob, countLines_eq blob, fun l hl => ?_⟩, fun lines final hnl => ?_⟩
  · obtain ⟨s, hs⟩ := mem_splitOn_of_mem_split hl
    exact Bytes.not_mem_of_mem_splitOn hs
  · rw [split_join_iff hnl, tells_iff]

theorem lines_agree_two : (∀ l ∈ ([[97], []] : List Bytes), Bytes.newline ∉ l) ∧
    ((split (join [[97], []] true)).lines = [[97], []] ∧
      (split (join [[97], []] true)).finalNewline = true) ∧
    ¬((split (join [[97], []] false)).lines = [[97], []] ∧
      (split (join [[97], []] false)).finalNewline = false) := by
  have hnl : ∀ l ∈ ([[97], []] : List Bytes), Bytes.newline ∉ l := by decide
  refine ⟨hnl, (lines_agree.2 [[97], []] true hnl).mpr (by simp), fun h => ?_⟩
  exact (lines_agree.2 [[97], []] false hnl).mp h (by simp)

end Blob

end LineEditor
