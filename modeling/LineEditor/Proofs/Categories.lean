import LineEditor.Command.Delimited

/-!
# Sets of categories

A table cuts the code space into runs, and a set selected from it joins those that meet. That
neither adds a code point nor loses one: the set has those whose run is wanted.
-/

namespace LineEditor.Unicode

namespace CodeSet

/-- The ranges lie at or above a number, in increasing order, and do not overlap. -/
def Above : Nat → List (Nat × Nat) → Prop
  | _, [] => True
  | n, (a, b) :: rest => n ≤ a ∧ a ≤ b ∧ Above (b + 1) rest

section
variable {n k c : Nat} {ranges : List (Nat × Nat)}

theorem Above.mono (h : Above k ranges) (hn : n ≤ k) : Above n ranges := by
  cases ranges with
  | nil => trivial
  | cons r rest => exact ⟨Nat.le_trans hn h.1, h.2⟩

theorem Above.memRanges_of_lt (h : Above n ranges) (hc : c < n) : memRanges c ranges = false := by
  cases ranges with
  | nil => rfl
  | cons r rest =>
    unfold memRanges
    rw [if_pos (Nat.lt_of_lt_of_le hc h.1)]

theorem memRanges_cons {a b : Nat} (h : Above (b + 1) ranges) (hab : a ≤ b) :
    memRanges c ((a, b) :: ranges) = (decide (a ≤ c ∧ c ≤ b) || memRanges c ranges) := by
  have hstep : memRanges c ((a, b) :: ranges) =
      if c < a then false else if c ≤ b then true else memRanges c ranges := rfl
  rw [hstep]
  by_cases hlt : c < a
  · have hrest := h.memRanges_of_lt (show c < b + 1 by omega)
    have hnot : ¬(a ≤ c ∧ c ≤ b) := by omega
    rw [if_pos hlt, hrest, decide_eq_false hnot]
    rfl
  · rw [if_neg hlt]
    by_cases hle : c ≤ b
    · rw [if_pos hle, decide_eq_true ⟨by omega, hle⟩]
      rfl
    · have hnot : ¬(a ≤ c ∧ c ≤ b) := by omega
      rw [if_neg hle, decide_eq_false hnot]
      rfl

/-- A range that goes in before the others joins the first of them if it meets it. -/
theorem insertRange_above {lo hi : Nat} (hlo : lo ≤ hi) (h : Above (hi + 1) ranges) :
    Above lo (insertRange lo hi ranges) ∧
      ∀ c, memRanges c (insertRange lo hi ranges) = (decide (lo ≤ c ∧ c ≤ hi) || memRanges c ranges) := by
  induction ranges generalizing hi with
  | nil =>
    have hnil : Above (hi + 1) [] := trivial
    exact ⟨⟨Nat.le_refl lo, hlo, hnil⟩, fun c => memRanges_cons hnil hlo⟩
  | cons r rest ih =>
    obtain ⟨a, b⟩ := r
    obtain ⟨ha, hab, hrest⟩ := h
    unfold insertRange
    by_cases hgap : hi + 1 < a
    · rw [if_pos hgap]
      have hall : Above (hi + 1) ((a, b) :: rest) := ⟨ha, hab, hrest⟩
      exact ⟨⟨Nat.le_refl lo, hlo, hall⟩, fun c => memRanges_cons hall hlo⟩
    · have hnext : a = hi + 1 := by omega
      have hmin : min lo a = lo := by omega
      have hmax : max hi b = b := by omega
      rw [if_neg hgap, if_neg (by omega), hmin, hmax]
      obtain ⟨habove, hmem⟩ := ih (show lo ≤ b by omega) hrest
      refine ⟨habove, fun c => ?_⟩
      rw [hmem, memRanges_cons hrest hab, ← Bool.or_assoc, ← Bool.decide_or]
      congr 2
      simp only [eq_iff_iff]
      omega

end

end CodeSet

namespace Partition

/-- The ranges of the runs from `next` on have the code points of the runs that are wanted. -/
theorem rangesFrom_above (wanted : Nat → Bool) (p : Partition) (next : Nat) :
    CodeSet.Above next (rangesFrom wanted next p) ∧ ∀ c, next ≤ c →
      CodeSet.memRanges c (rangesFrom wanted next p) = (p.classAt (c - next)).any wanted := by
  induction p generalizing next with
  | nil => exact ⟨trivial, fun c _ => rfl⟩
  | cons run rest ih =>
    obtain ⟨length, value⟩ := run
    obtain ⟨habove, hmem⟩ := ih (next + length)
    have hlater (c : Nat) (hc : next + length ≤ c) :
        CodeSet.memRanges c (rangesFrom wanted (next + length) rest) =
          (classAt ((length, value) :: rest) (c - next)).any wanted := by
      have hback : c - next - length = c - (next + length) := by omega
      unfold classAt
      rw [hmem c hc, if_neg (by omega), hback]
    have hhere (c : Nat) (h₁ : next ≤ c) (hc : c < next + length) :
        (classAt ((length, value) :: rest) (c - next)).any wanted = wanted value := by
      unfold classAt
      rw [if_pos (by omega)]
      rfl
    unfold rangesFrom
    by_cases hw : (wanted value && decide (0 < length)) = true
    · rw [if_pos hw]
      simp only [Bool.and_eq_true, decide_eq_true_eq] at hw
      have hfit : CodeSet.Above (next + length - 1 + 1) (rangesFrom wanted (next + length) rest) := by
        rwa [Nat.sub_add_cancel (by omega)]
      obtain ⟨hall, hins⟩ := CodeSet.insertRange_above (show next ≤ next + length - 1 by omega) hfit
      refine ⟨hall, fun c h₁ => ?_⟩
      rw [hins]
      by_cases hc : c < next + length
      · rw [hhere c h₁ hc, hw.1, decide_eq_true ⟨h₁, by omega⟩]
        rfl
      · rw [hlater c (by omega), decide_eq_false (by omega), Bool.false_or]
    · rw [if_neg hw]
      refine ⟨habove.mono (Nat.le_add_right _ _), fun c h₁ => ?_⟩
      by_cases hc : c < next + length
      · have hnot : wanted value = false := by
          simp only [Bool.and_eq_true, decide_eq_true_eq, not_and] at hw
          cases hv : wanted value with
          | false => rfl
          | true => exact absurd (by omega) (hw hv)
        rw [hhere c h₁ hc, habove.memRanges_of_lt hc, hnot]
      · exact hlater c (by omega)

/-- A code point is in a set of classes if its own is one of them. -/
theorem contains_select (p : Partition) (wanted : Nat → Bool) (c : Nat) :
    (p.select wanted).contains c = (p.classAt c).any wanted :=
  (rangesFrom_above wanted p 0).2 c (Nat.zero_le c)

end Partition

/-- A code point is in a set of categories if its own is one of them. -/
theorem contains_inCategories (numbers : List Nat) (c : Nat) : (inCategories numbers).contains c =
    ((Partition.ofPacked categoryPartition).classAt c).any numbers.contains :=
  Partition.contains_select _ _ c

theorem isAlphanumeric_slash : isAlphanumeric '/' = false := by
  have hletter : isAlphabetic '/' = false := by decide +kernel
  have hclass : (Partition.ofPacked categoryPartition).classAt 47 = some 17 := by decide +kernel
  have hnumber : numberSet.contains 47 = false := by
    unfold numberSet
    rw [contains_inCategories, hclass]
    rfl
  have hcode : '/'.toNat = 47 := rfl
  rw [isAlphanumeric, hletter, hcode, hnumber]
  rfl

end LineEditor.Unicode

/-- The slash is a delimiter. -/
theorem LineEditor.Delimited.check_slash : check '/' = .ok '/' := by
  have hspace : Unicode.isSpace '/' = false := by decide +kernel
  rw [check, Unicode.isAlphanumeric_slash, hspace]
  rfl

theorem LineEditor.Delimited.first_slash (rest : List Char) :
    first ('/' :: rest) = .ok ('/', scan '/' rest) := by
  rw [first, check_slash]
  rfl
