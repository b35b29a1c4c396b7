import LineEditor.Proofs.Substitution

/-!
# Tokens and newlines

No token has a newline in it, so the tokens of a line that is cut at its newlines are those of the
pieces. A substitution that keeps the tokens of a line therefore keeps those of the page, however
many lines come of it.
-/

namespace LineEditor

theorem Bytes.intercalate_splitOn (sep : UInt8) (s : Bytes) :
    List.intercalate [sep] (splitOn sep s) = s := by
  induction s with
  | nil => rfl
  | cons b rest ih =>
    unfold splitOn
    split
    · rename_i hb
      cases hs : splitOn sep rest with
      | nil => exact absurd hs (splitOn_ne_nil sep rest)
      | cons piece pieces =>
        rw [hs] at ih
        rw [List.intercalate_cons_cons, ih, hb]
        rfl
    · cases hs : splitOn sep rest with
      | nil => exact absurd hs (splitOn_ne_nil sep rest)
      | cons piece pieces =>
        rw [hs] at ih
        dsimp only
        cases pieces with
        | nil =>
          rw [List.intercalate_singleton] at ih ⊢
          rw [ih]
        | cons next pieces =>
          rw [List.intercalate_cons_cons] at ih ⊢
          rw [List.append_assoc] at ih ⊢
          rw [List.cons_append, ih]

namespace Markup

theorem digits_append (a b : Bytes) :
    (a ++ Bytes.newline :: b).takeWhile Bytes.isDigit = a.takeWhile Bytes.isDigit := by
  induction a with
  | nil => rfl
  | cons c a ih => simp only [List.cons_append, List.takeWhile_cons, ih]

theorem behind_digits_append (a b : Bytes) :
    (a ++ Bytes.newline :: b).dropWhile Bytes.isDigit =
      a.dropWhile Bytes.isDigit ++ Bytes.newline :: b := by
  induction a with
  | nil => rfl
  | cons c a ih =>
    simp only [List.cons_append, List.dropWhile_cons]
    split
    · exact ih
    · rfl

/-- What follows a lead byte is decided before the next newline. -/
theorem tokenBody_append (a b : Bytes) : tokenBody (a ++ Bytes.newline :: b) = tokenBody a := by
  have hstop : isTerminator Bytes.newline = false := by decide
  unfold tokenBody
  dsimp only
  rw [drop_digits, drop_digits, digits_append, behind_digits_append]
  cases a.dropWhile Bytes.isDigit with
  | nil => simp [hstop]
  | cons t rest => rfl

theorem tokenBody_length {s digits : Bytes} {t : UInt8} (h : tokenBody s = some (digits, t)) :
    digits.length + 1 ≤ s.length := by
  unfold tokenBody at h
  dsimp only at h
  split at h
  · cases h
  · split at h
    · rename_i t' rest hd
      have hlen := congrArg List.length hd
      rw [List.length_drop, List.length_cons] at hlen
      split at h
      · cases h
        omega
      · cases h
    · cases h

/-- By induction on the first piece; the bytes to be skipped are some of its own. -/
theorem segmentsFrom_append (a b : Bytes) (skip : Nat) (h : skip ≤ a.length) :
    segmentsFrom skip (a ++ Bytes.newline :: b) =
      segmentsFrom skip a ++ .plain Bytes.newline :: segmentsFrom 0 b := by
  induction a generalizing skip with
  | nil =>
    obtain rfl : skip = 0 := Nat.le_zero.mp h
    have hplain : Bytes.newline ≠ lead := by decide
    simp only [List.nil_append, segmentsFrom, if_neg hplain]
  | cons c a ih =>
    cases skip with
    | succ skip => exact ih skip (Nat.le_of_succ_le_succ h)
    | zero =>
      rw [List.cons_append, segmentsFrom, segmentsFrom, tokenBody_append]
      split
      · cases ht : tokenBody a with
        | none =>
          dsimp only
          rw [ih 0 (Nat.zero_le _), List.cons_append]
        | some token =>
          dsimp only
          rw [ih _ (tokenBody_length ht), List.cons_append]
      · rw [ih 0 (Nat.zero_le _), List.cons_append]

theorem tokenTexts_append (a b : Bytes) :
    tokenTexts (a ++ Bytes.newline :: b) = tokenTexts a ++ tokenTexts b := by
  unfold tokenTexts segments
  rw [segmentsFrom_append a b 0 (Nat.zero_le _), List.filter_append, List.map_append]
  rfl

theorem tokenTexts_intercalate (pieces : List Bytes) :
    tokenTexts (List.intercalate [Bytes.newline] pieces) = pieces.flatMap tokenTexts := by
  induction pieces with
  | nil => rfl
  | cons piece pieces ih =>
    cases pieces with
    | nil => simp
    | cons next pieces =>
      rw [List.intercalate_cons_cons, List.append_assoc, List.singleton_append, tokenTexts_append, ih]
      rfl

theorem tokenTexts_splitOn (line : Bytes) :
    (Bytes.splitOn Bytes.newline line).flatMap tokenTexts = tokenTexts line := by
  rw [← tokenTexts_intercalate, Bytes.intercalate_splitOn]

end Markup

/-- The pieces that a line becomes carry its tokens, in order. -/
theorem Rewrites.tokens_eq {line : Bytes} {pieces : List Bytes} (h : Rewrites line pieces) :
    pieces.flatMap Markup.tokenTexts = Markup.tokenTexts line := by
  obtain ⟨new, hsame, rfl⟩ := h
  have heq : Markup.tokenTexts line = Markup.tokenTexts new := by simpa [Markup.sameTokens] using hsame
  rw [Markup.tokenTexts_splitOn, heq]

end LineEditor
