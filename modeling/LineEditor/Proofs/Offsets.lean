import LineEditor.Proofs.Ends
import LineEditor.Text.Markup

/-!
# Tokens read by offsets

A reader that goes over a line by offsets finds a token at an offset where one begins in what is left
of the line. So it finds the segments of the line, and every byte that it takes is there.
-/

namespace LineEditor

theorem Bytes.slice_drop {line : Bytes} {i : Nat} (h : i ≤ line.length) :
    line.slice i line.length = .ok (line.drop i) := by
  rw [slice_of_le h (Nat.le_refl _), List.take_of_length_le (Nat.le_of_eq List.length_drop)]

theorem Bytes.slice_append (before text behind : Bytes) :
    (before ++ (text ++ behind)).slice before.length (before.length + text.length) = .ok text := by
  rw [slice_of_le (Nat.le_add_right _ _) (by simp), Nat.add_sub_cancel_left, List.drop_left,
    List.take_left]

namespace Markup

/-! ## Segments of what is left -/

theorem drop_digits (s : Bytes) :
    s.drop (s.takeWhile Bytes.isDigit).length = s.dropWhile Bytes.isDigit := by
  induction s with
  | nil => rfl
  | cons c s ih =>
    by_cases hc : Bytes.isDigit c = true
    · simp [hc, ih]
    · simp [hc]

theorem eq_append_of_tokenBody {s digits : Bytes} {t : UInt8} (h : tokenBody s = some (digits, t)) :
    ∃ behind, s = digits ++ t :: behind := by
  unfold tokenBody at h
  dsimp only at h
  split at h
  · cases h
  · split at h
    · rename_i t' behind hdrop
      split at h
      · cases h
        refine ⟨behind, ?_⟩
        rw [← hdrop, drop_digits, List.takeWhile_append_dropWhile]
      · cases h
    · cases h

theorem segmentsFrom_eq (skip : Nat) (line : Bytes) :
    segmentsFrom skip line = segments (line.drop skip) := by
  induction line generalizing skip with
  | nil => cases skip <;> rfl
  | cons b rest ih =>
    cases skip with
    | zero => rfl
    | succ skip => exact ih skip

/-- The digits and the terminator of the token at the front of a line. -/
def frontToken : Bytes → Option (Bytes × UInt8)
  | [] => none
  | b :: rest => if b = lead then tokenBody rest else none

section
variable {line digits : Bytes} {t : UInt8}

theorem eq_append_of_frontToken (h : frontToken line = some (digits, t)) :
    ∃ behind, line = (lead :: digits) ++ t :: behind := by
  cases line with
  | nil => cases h
  | cons b rest =>
    rw [frontToken] at h
    split at h
    · rename_i hb
      obtain ⟨behind, rfl⟩ := eq_append_of_tokenBody h
      exact ⟨behind, by rw [hb]; rfl⟩
    · cases h

theorem segments_of_frontToken (h : frontToken line = some (digits, t)) :
    segments line = .token digits t :: segments (line.drop (digits.length + 2)) := by
  cases line with
  | nil => cases h
  | cons b rest =>
    rw [frontToken] at h
    split at h
    · rename_i hb
      rw [segments, segmentsFrom, if_pos hb, h]
      exact congrArg (List.cons _) (segmentsFrom_eq _ rest)
    · cases h

theorem segments_of_frontToken_none {b : UInt8} {rest : Bytes}
    (h : frontToken (b :: rest) = none) : segments (b :: rest) = .plain b :: segments rest := by
  rw [frontToken] at h
  rw [segments, segmentsFrom]
  split at h
  · rename_i hb
    rw [if_pos hb, h, segments]
  · rename_i hb
    rw [if_neg hb, segments]

end

/-- By induction on the line, what is cut off it being passed over first. -/
theorem segments_drop_raw (line : Bytes) (i : Nat) :
    (segments (line.drop i)).flatMap Segment.raw = line.drop i := by
  induction line generalizing i with
  | nil => cases i <;> rfl
  | cons b rest ih =>
    cases i with
    | succ i => exact ih i
    | zero =>
      rw [List.drop_zero]
      cases hfront : frontToken (b :: rest) with
      | some body =>
        obtain ⟨digits, t⟩ := body
        obtain ⟨behind, hline⟩ := eq_append_of_frontToken hfront
        have hbehind : (b :: rest).drop (digits.length + 2) = behind := by
          rw [hline, List.drop_append]
          simp
        rw [segments_of_frontToken hfront, List.flatMap_cons, List.drop_succ_cons, ih,
          ← List.drop_succ_cons, hbehind, hline, Segment.raw, List.append_assoc]
        rfl
      | none =>
        have hrest := ih 0
        rw [List.drop_zero] at hrest
        rw [segments_of_frontToken_none hfront, List.flatMap_cons, hrest]
        rfl

theorem segments_raw (line : Bytes) : (segments line).flatMap Segment.raw = line :=
  segments_drop_raw line 0

theorem display_of_lead_not_mem {line : Bytes} (h : lead ∉ line) : display line = line := by
  induction line with
  | nil => rfl
  | cons b rest ih =>
    obtain ⟨hb, hrest⟩ := not_or.mp (mt List.mem_cons.mpr h)
    rw [display, segments_of_frontToken_none (if_neg (Ne.symm hb)), List.flatMap_cons]
    exact congrArg (List.cons b) (ih hrest)

/-! ## The token at an offset -/

section
variable {line : Bytes} {i : Nat}

theorem tokenBody_map_length (s : Bytes) :
    (tokenBody s).map (fun body => body.1.length + 2) =
      if (s.takeWhile Bytes.isDigit).length = 0 then none
      else if s[(s.takeWhile Bytes.isDigit).length]?.any isTerminator then
        some ((s.takeWhile Bytes.isDigit).length + 2)
      else none := by
  unfold tokenBody
  dsimp only
  by_cases hnone : (s.takeWhile Bytes.isDigit).isEmpty = true
  · have hzero : (s.takeWhile Bytes.isDigit).length = 0 := by
      rw [List.isEmpty_iff.mp hnone, List.length_nil]
    rw [if_pos hnone, if_pos hzero, Option.map_none]
  · have hsome : ¬(s.takeWhile Bytes.isDigit).length = 0 := by simpa using hnone
    rw [if_neg hnone, if_neg hsome, ← List.head?_drop]
    cases s.drop (s.takeWhile Bytes.isDigit).length with
    | nil => rfl
    | cons t behind =>
      show Option.map _ (if isTerminator t = true then some _ else none) =
        if isTerminator t = true then some _ else none
      cases isTerminator t <;> rfl

theorem tokenAt_toArray (line : Bytes) (i : Nat) : tokenAt line.toArray i =
    .ok ((frontToken (line.drop i)).map fun body => body.1.length + 2) := by
  unfold tokenAt
  rw [List.getElem?_toArray, ← List.head?_drop]
  cases hrest : line.drop i with
  | nil => rfl
  | cons b rest =>
    have hlt : i + 1 ≤ line.length := by
      have hlen := congrArg List.length hrest
      rw [List.length_drop, List.length_cons] at hlen
      omega
    have hbehind : line.drop (i + 1) = rest := by
      rw [← List.drop_drop, hrest]
      rfl
    have hget (k : Nat) : line.toArray[i + 1 + k]? = rest[k]? := by
      rw [List.getElem?_toArray, ← hbehind, List.getElem?_drop]
    rw [frontToken, List.head?_cons]
    by_cases hb : b = lead
    · subst hb
      rw [if_pos rfl, tokenBody_map_length, List.size_toArray, Bytes.slice_drop hlt, hbehind]
      simp only [hget]
      rw [if_neg fun h => h rfl]
      show (if (rest.takeWhile Bytes.isDigit).length = 0 then _ else _) = _
      split <;> rfl
    · rw [if_neg hb, if_pos (by simpa using hb)]
      rfl

end

/-! ## The readers -/

section
variable {line : Bytes} {fuel i : Nat}

theorem drop_of_frontToken {raw digits : Bytes} {t : UInt8}
    (h : frontToken (raw.drop i) = some (digits, t)) : i + (digits.length + 2) ≤ raw.length ∧
      raw[i + (digits.length + 1)]? = some t := by
  obtain ⟨behind, hrest⟩ := eq_append_of_frontToken h
  constructor
  · have hlen := congrArg List.length hrest
    rw [List.length_drop, List.length_append, List.length_cons, List.length_cons] at hlen
    omega
  · rw [← List.getElem?_drop, hrest]
    simp

theorem tokenSpans_token_cons (origin : Nat) (digits : Bytes) (t : UInt8) (l : List Segment) :
    tokenSpans origin (.token digits t :: l) =
      (origin, origin + (digits.length + 2)) :: tokenSpans (origin + (digits.length + 2)) l := by
  simp [tokenSpans, Segment.raw, Segment.isToken]

theorem push_append_toArray (a : Array α) (x : α) (l : List α) :
    a.push x ++ l.toArray = a ++ (x :: l).toArray := by
  simp

theorem readTokens_drop (found : Array (Nat × Nat)) (hfuel : line.length ≤ i + fuel) :
    readTokens line.toArray fuel i found =
      .ok (found ++ (tokenSpans i (segments (line.drop i))).toArray) := by
  induction fuel generalizing i found with
  | zero =>
    rw [List.drop_eq_nil_of_le (show line.length ≤ i from hfuel)]
    exact congrArg Except.ok Array.append_empty.symm
  | succ fuel ih =>
    unfold readTokens
    rw [List.size_toArray]
    split
    · rename_i hlt
      rw [tokenAt_toArray]
      cases hfront : frontToken (line.drop i) with
      | some body =>
        obtain ⟨digits, t⟩ := body
        show readTokens _ fuel (i + (digits.length + 2)) _ = _
        rw [ih _ (by omega), segments_of_frontToken hfront, List.drop_drop, tokenSpans_token_cons,
          push_append_toArray]
      | none =>
        show readTokens _ fuel (i + 1) _ = _
        rw [List.drop_eq_getElem_cons hlt] at hfront ⊢
        rw [ih _ (by omega), segments_of_frontToken_none hfront]
        rfl
    · rw [List.drop_eq_nil_of_le (by omega)]
      exact congrArg Except.ok Array.append_empty.symm

theorem readShown_drop (shown : Array UInt8) (hfuel : line.length ≤ i + fuel) :
    readShown line.toArray fuel i shown = .ok (shown ++ (display (line.drop i)).toArray) := by
  induction fuel generalizing i shown with
  | zero =>
    rw [List.drop_eq_nil_of_le (show line.length ≤ i from hfuel)]
    exact congrArg Except.ok Array.append_empty.symm
  | succ fuel ih =>
    unfold readShown
    rw [List.size_toArray]
    split
    · rename_i hlt
      rw [tokenAt_toArray]
      cases hfront : frontToken (line.drop i) with
      | some body =>
        obtain ⟨digits, t⟩ := body
        obtain ⟨hle, hget⟩ := drop_of_frontToken hfront
        have hlast : difference (i + (digits.length + 2)) 1 = .ok (i + (digits.length + 1)) :=
          difference_of_le (by omega)
        have hbyte : Bytes.byteAt line.toArray (i + (digits.length + 1)) = .ok t := by
          rw [Bytes.byteAt, List.getElem?_toArray, hget]
        show (do
          let t ← Bytes.byteAt line.toArray (← difference (i + (digits.length + 2)) 1)
          readShown line.toArray fuel (i + (digits.length + 2))
            (if isBracket t then shown.push t else shown)) = _
        rw [hlast]
        show (Bytes.byteAt line.toArray (i + (digits.length + 1)) >>= fun t => _) = _
        rw [hbyte]
        show readShown line.toArray fuel (i + (digits.length + 2)) _ = _
        rw [ih _ (by omega), display, display, segments_of_frontToken hfront, List.drop_drop,
          List.flatMap_cons, Segment.shown]
        cases isBracket t with
        | true => exact congrArg Except.ok (push_append_toArray _ t _)
        | false => rfl
      | none =>
        show (Bytes.byteAt line.toArray i >>= fun b => readShown line.toArray fuel (i + 1) _) = _
        rw [Bytes.byteAt_toArray hlt]
        show readShown line.toArray fuel (i + 1) _ = _
        rw [List.drop_eq_getElem_cons hlt] at hfront ⊢
        rw [ih _ (by omega), push_append_toArray, display, display,
          segments_of_frontToken_none hfront]
        rfl
    · rw [List.drop_eq_nil_of_le (by omega)]
      exact congrArg Except.ok Array.append_empty.symm

end

theorem readTokens_eq (line : Bytes) :
    readTokens line.toArray line.length 0 #[] = .ok (tokens line).toArray := by
  rw [readTokens_drop #[] (by omega), Array.empty_append]
  rfl

/-- By the segments, all that is in front of them being passed over. -/
theorem mapM_slice_tokenSpans (before : Bytes) (l : List Segment) :
    (tokenSpans before.length l).mapM
        (fun span => (before ++ l.flatMap Segment.raw).slice span.1 span.2) =
      .ok ((l.filter Segment.isToken).map Segment.raw) := by
  induction l generalizing before with
  | nil => rfl
  | cons s l ih =>
    have hrest := ih (before ++ s.raw)
    rw [List.length_append, List.append_assoc] at hrest
    rw [List.flatMap_cons, tokenSpans]
    cases hs : s.isToken with
    | true =>
      rw [if_pos rfl, List.mapM_cons, Bytes.slice_append, hrest, List.filter_cons_of_pos hs]
      rfl
    | false =>
      rw [if_neg Bool.false_ne_true, hrest, List.filter_cons_of_neg (by simp [hs])]

theorem readTexts_eq (line : Bytes) : readTexts line = .ok (tokenTexts line) := by
  have hslices := mapM_slice_tokenSpans [] (segments line)
  rw [segments_raw] at hslices
  unfold readTexts
  rw [readTokens_eq]
  exact hslices

theorem keepsTokens_eq (before after : Bytes) :
    keepsTokens before after = .ok (sameTokens before after) := by
  unfold keepsTokens
  rw [readTexts_eq, readTexts_eq]
  rfl

theorem strip_eq (line : Bytes) : strip line = .ok (display line) := by
  unfold strip
  split
  · rw [readShown_drop #[] (by omega), Array.empty_append]
    rfl
  · rename_i hnone
    rw [display_of_lead_not_mem (by simpa using hnone)]
    rfl

end Markup

end LineEditor
