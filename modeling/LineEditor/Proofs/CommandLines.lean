import LineEditor.Proofs.Dispatch
import LineEditor.Proofs.Ranges

/-!
# Command lines with a range

Neither white space nor the letter of a command goes on with a range, so a line that is a range and
what belongs behind it is cut there.
-/

namespace LineEditor

namespace RangeExpr

theorem not_isSpace_of_isDigit {c : Char} (h : c.isDigit = true) : Unicode.isSpace c = false := by
  have hall : ∀ n < 10, Unicode.spaceSet.contains (48 + n) = false := by decide +kernel
  have hbounds : 48 ≤ c.toNat ∧ c.toNat ≤ 57 := by
    unfold Char.isDigit at h
    simp only [Bool.and_eq_true, decide_eq_true_eq, UInt32.le_iff_toNat_le] at h
    exact h
  have hc := hall (c.toNat - 48) (by omega)
  rwa [show 48 + (c.toNat - 48) = c.toNat by omega] at hc

/-- No range begins with white space. -/
theorem not_isSpace_of_begins {c : Char} (h : (Address.starts c || isShort c) = true) :
    Unicode.isSpace c = false := by
  have hbase : (['.', '$', '\'', '/', '?'].all fun c => !Unicode.isSpace c) = true := by
    decide +kernel
  simp only [Address.starts, Address.startsBase, Address.isSign, isShort, isSeparator,
    Bool.or_eq_true, List.contains_eq_mem, decide_eq_true_eq] at h
  rcases h with ((hdigit | hmem) | rfl | rfl) | (rfl | rfl) | rfl
  · exact not_isSpace_of_isDigit hdigit
  · simpa using List.all_eq_true.mp hbase c hmem
  all_goals decide +kernel

theorem trimStart_begins {c : Char} (h : (Address.starts c || isShort c) = true) (rest : List Char) :
    Unicode.trimStart (c :: rest) = c :: rest :=
  List.dropWhile_cons_of_neg (by simp [not_isSpace_of_begins h])

theorem stops_blank {more : Char → Bool}
    (hmore : ∀ c, more c = true → (Address.starts c || isShort c) = true) {blank : List Char}
    (hblank : ∀ c ∈ blank, Unicode.isSpace c = true) : Stops more blank := by
  intro c hc
  have hspace := hblank c (List.mem_of_head? hc)
  by_contra hgoes
  rw [not_isSpace_of_begins (hmore c (by simpa using hgoes))] at hspace
  cases hspace

theorem Sentence.begins {text : List Char} {expr : RangeExpr} {more : Char → Bool}
    (h : Sentence text expr more) : text = [] ∧ expr = .default ∨
      ∃ c rest, text = c :: rest ∧ (Address.starts c || isShort c) = true := by
  have haddress {text base offsets more} (tail : List Char)
      (h : Address.Sentence text base offsets more) :
      ∃ c rest, text ++ tail = c :: rest ∧ (Address.starts c || isShort c) = true := by
    obtain ⟨c, rest, rfl, hc⟩ := h.begins
    exact ⟨c, _, rfl, by rw [hc, Bool.true_or]⟩
  cases h with
  | default => exact .inl ⟨rfl, rfl⟩
  | percent => exact .inr ⟨_, _, rfl, by decide⟩
  | comma => exact .inr ⟨_, _, rfl, by decide⟩
  | semicolon => exact .inr ⟨_, _, rfl, by decide⟩
  | one hfirst =>
    have hbegins := haddress [] hfirst
    rw [List.append_nil] at hbegins
    exact .inr hbegins
  | lone hfirst => exact .inr (haddress _ hfirst)
  | fromFirstLine => exact .inr ⟨_, _, rfl, by decide⟩
  | fromDot => exact .inr ⟨_, _, rfl, by decide⟩
  | two hfirst => exact .inr (haddress _ hfirst)

end RangeExpr

/-- A line number with offsets behind it, if there are any. -/
theorem Address.sentence_line {digits : List Char} (hdigits : ∀ c ∈ digits, c.isDigit = true)
    (hpos : 1 ≤ Number.ofDigits digits) (hle : Number.ofDigits digits ≤ Number.maxCount)
    (offsets : List Offset) (hoffsets : ∀ o ∈ offsets, o.Proper) :
    Sentence (digits ++ Offset.spell offsets) (.line (Number.ofDigits digits)) offsets
      (goesOn true) := by
  have hne : digits ≠ [] := by
    rintro rfl
    exact absurd hpos (by decide)
  exact .based (.line hne hdigits hle) hoffsets

namespace CommandLine

/-- A range, the letter behind it, and the rest of the line. -/
theorem parse_range_letter {text : List Char} {expr : RangeExpr} {more : Char → Bool}
    (h : RangeExpr.Sentence text expr more) (cmd : Command) (hmore : more cmd.letter = false)
    (tail : List Char) :
    parse (text ++ cmd.letter :: tail) = .ok ⟨expr, some cmd.letter, tail⟩ := by
  have hstart : Unicode.trimStart (text ++ cmd.letter :: tail) = text ++ cmd.letter :: tail := by
    rcases h.begins with ⟨rfl, -⟩ | ⟨c, rest, rfl, hc⟩
    · exact Unicode.trimStart_letter cmd tail
    · exact RangeExpr.trimStart_begins hc _
  unfold parse
  rw [hstart, RangeExpr.parse_sentence h (stops_cons.mpr hmore)]
  dsimp only [bind, Except.bind]
  rw [Unicode.trimStart_letter]
  rfl

/-- A range without a letter, and white space behind it. -/
theorem parse_range_blank {text blank : List Char} {expr : RangeExpr} {more : Char → Bool}
    (h : RangeExpr.Sentence text expr more) (hmore : Stops more blank)
    (hblank : ∀ c ∈ blank, Unicode.isSpace c = true) :
    parse (text ++ blank) = .ok ⟨expr, none, []⟩ := by
  have hdrop : Unicode.trimStart blank = [] := List.dropWhile_eq_nil_iff.mpr hblank
  unfold parse
  rcases h.begins with ⟨rfl, rfl⟩ | ⟨c, rest, rfl, hc⟩
  · rw [List.nil_append, hdrop, show RangeExpr.parse [] = .ok (.default, []) from
      RangeExpr.parse_sentence .default (stops_nil _)]
    rfl
  · have hstart : Unicode.trimStart (c :: rest ++ blank) = c :: rest ++ blank :=
      RangeExpr.trimStart_begins hc _
    rw [hstart, RangeExpr.parse_sentence h hmore]
    dsimp only [bind, Except.bind]
    rw [hdrop]
    rfl

/-- A line number that is too large is refused whatever follows. -/
theorem parse_huge {digits rest : List Char} (hdigits : ∀ c ∈ digits, c.isDigit = true)
    (hrest : Stops Char.isDigit rest) (hhuge : Number.maxCount < Number.ofDigits digits) :
    parse (digits ++ rest) = .error (.lineOutOfRange Number.maxCount) := by
  obtain ⟨c, more, rfl⟩ : ∃ c more, digits = c :: more := by
    refine List.exists_cons_of_ne_nil ?_
    rintro rfl
    exact absurd hhuge (by decide)
  have hc := hdigits c List.mem_cons_self
  have hstarts : Address.starts c = true := by simp [Address.starts, Address.startsBase, hc]
  have hstart : Unicode.trimStart (c :: more ++ rest) = c :: more ++ rest :=
    RangeExpr.trimStart_begins (by simp [hstarts]) _
  have hnumber : Address.number Number.maxCount (c :: more) =
      .error (.lineOutOfRange Number.maxCount) := by
    unfold Address.number Number.ofDigits?
    rw [if_neg (Nat.not_le.mpr hhuge)]
    rfl
  have haddress : Address.parse (c :: more ++ rest) = .error (.lineOutOfRange Number.maxCount) := by
    unfold Address.parse
    rw [Address.base?_digits (List.cons_ne_nil _ _) hdigits hrest, hnumber]
    rfl
  unfold parse
  rw [hstart, RangeExpr.parse_of_stops (s := c :: more ++ rest)
    (stops_cons.mpr (RangeExpr.not_short_of_starts hstarts)), haddress]
  rfl

end CommandLine

namespace EditM

theorem withoutNewline_append (text : List Char) {c : Char} (hc : c ≠ '\n') (tail : List Char) :
    withoutNewline (text ++ c :: tail) = text ++ c :: withoutNewline tail := by
  unfold withoutNewline
  cases tail with
  | nil => simp [hc]
  | cons d tail =>
    rw [List.getLast?_append_of_ne_nil _ (by simp), List.getLast?_cons_cons]
    split
    · rw [List.dropLast_append_of_ne_nil (by simp), List.dropLast_cons_of_ne_nil (by simp)]
    · rfl

end EditM

end LineEditor
