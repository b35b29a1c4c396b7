import LineEditor.Proofs.Markup
import LineEditor.Command.SubstituteRequest
import LineEditor.Proofs.Leads

/-!
# Tokens in plain text

A line that was never marked is the encoding of some characters. The lead byte of a token is also the
last byte of every character beyond ASCII whose number is a multiple of 64, so plain text is taken
for a token exactly where digits and a terminator stand behind such a character.
-/

namespace LineEditor

namespace Utf8

theorem encode_ascii {c : Char} (h : c.toNat < 128) :
    String.utf8EncodeChar c = [UInt8.ofNat c.toNat] := by
  have hnum : c.val.toNat = c.toNat := rfl
  unfold String.utf8EncodeChar
  dsimp only
  rw [hnum, if_pos (by omega)]

theorem le_of_mem_encode {c : Char} (h : 128 ≤ c.toNat) {b : UInt8}
    (hb : b ∈ String.utf8EncodeChar c) : 128 ≤ b.toNat := by
  have hnum : c.val.toNat = c.toNat := rfl
  unfold String.utf8EncodeChar at hb
  dsimp only at hb
  rw [hnum, if_neg (by omega)] at hb
  split at hb
  case' isFalse => split at hb
  all_goals
    simp only [List.mem_cons, List.not_mem_nil, or_false, ← UInt8.toNat_inj, UInt8.toNat_ofNat'] at hb
    omega

theorem encode_ne_nil (c : Char) : String.utf8EncodeChar c ≠ [] := by
  unfold String.utf8EncodeChar
  dsimp only
  split
  case' isFalse => split
  case' isFalse.isFalse => split
  all_goals exact List.cons_ne_nil _ _

end Utf8

namespace Markup

section
variable (isLead isDigit isTerminator : α → Bool)

/-- Digits, perhaps none, and a terminator stand at the front. -/
def closes : List α → Bool
  | [] => false
  | x :: rest => isTerminator x || (isDigit x && closes rest)

/-- One or more digits and a terminator stand at the front. -/
def isBody : List α → Bool
  | [] => false
  | x :: rest => isDigit x && closes isDigit isTerminator rest

/-- Behind some lead stands the body of a token. -/
def holds : List α → Bool
  | [] => false
  | x :: rest => (isLead x && isBody isDigit isTerminator rest) || holds rest

end

/-- Whether the encoding of a character ends in the byte that starts a token. -/
def endsInLead (c : Char) : Bool := 128 ≤ c.toNat && c.toNat % 64 == 0

def isTerminatorChar (c : Char) : Bool := ['{', '}', '<', '>', '*', '#'].contains c

/-- Whether some text has the bytes of a token in it. -/
def lookalike (s : List Char) : Bool := holds endsInLead Char.isDigit isTerminatorChar s

/-! ## Tokens of a line of bytes -/

theorem not_terminator_of_digit {b : UInt8} (h : Bytes.isDigit b = true) : isTerminator b = false := by
  simp only [Bytes.isDigit, isTerminator, isBracket, Bool.and_eq_true, decide_eq_true_eq,
    UInt8.le_iff_toNat_le, Bool.or_eq_false_iff, decide_eq_false_iff_not, ← UInt8.toNat_inj] at h ⊢
  simp only [UInt8.reduceToNat] at h ⊢
  omega

theorem closes_eq (s : Bytes) : closes Bytes.isDigit isTerminator s =
    ((s.dropWhile Bytes.isDigit).head?.any isTerminator) := by
  induction s with
  | nil => rfl
  | cons b s ih =>
    unfold closes
    by_cases hb : Bytes.isDigit b = true
    · rw [not_terminator_of_digit hb, ih, List.dropWhile_cons_of_pos hb, hb]
      rfl
    · rw [List.dropWhile_cons_of_neg hb, Bool.eq_false_iff.mpr hb]
      simp

theorem tokenBody_isSome (s : Bytes) : (tokenBody s).isSome = isBody Bytes.isDigit isTerminator s := by
  cases s with
  | nil => rfl
  | cons b s =>
    unfold tokenBody isBody
    dsimp only
    rw [drop_digits]
    by_cases hb : Bytes.isDigit b = true
    · rw [hb, List.takeWhile_cons_of_pos hb, List.dropWhile_cons_of_pos hb, closes_eq]
      cases s.dropWhile Bytes.isDigit with
      | nil => simp
      | cons t rest => cases ht : isTerminator t <;> simp [ht]
    · rw [List.takeWhile_cons_of_neg hb]
      simp [hb]

theorem any_isToken (line : Bytes) : (segmentsFrom 0 line).any Segment.isToken =
    holds (· == lead) Bytes.isDigit isTerminator line := by
  -- the first lead with a body starts a token, so no byte before the scan's place matters
  induction line with
  | nil => rfl
  | cons b rest ih =>
    unfold segmentsFrom holds
    rw [← tokenBody_isSome]
    by_cases hb : b = lead
    · rw [if_pos hb]
      cases tokenBody rest with
      | none => simp [ih, Segment.isToken]
      | some token => simp [hb, Segment.isToken]
    · rw [if_neg hb]
      simp [hb, ih, Segment.isToken]

theorem tokenSpans_eq_nil (start : Nat) (l : List Segment) :
    tokenSpans start l = [] ↔ l.any Segment.isToken = false := by
  induction l generalizing start with
  | nil => simp [tokenSpans]
  | cons s l ih =>
    unfold tokenSpans
    cases hs : s.isToken <;> simp [hs, ih]

theorem tokens_eq_nil (line : Bytes) :
    tokens line = [] ↔ holds (· == lead) Bytes.isDigit isTerminator line = false := by
  rw [tokens, tokenSpans_eq_nil, segments, any_isToken]

theorem tokenTexts_eq_nil (line : Bytes) : tokenTexts line = [] ↔ tokens line = [] := by
  rw [tokens, tokenSpans_eq_nil, tokenTexts, List.map_eq_nil_iff, List.filter_eq_nil_iff]
  simp

theorem display_of_tokens_eq_nil {line : Bytes} (h : tokens line = []) : display line = line := by
  rw [tokens_eq_nil] at h
  unfold display segments
  induction line with
  | nil => rfl
  | cons b rest ih =>
    unfold holds at h
    rw [Bool.or_eq_false_iff, ← tokenBody_isSome] at h
    unfold segmentsFrom
    by_cases hb : b = lead
    · have hnone : tokenBody rest = none := by simpa [hb] using h.1
      simp [hb, hnone, Segment.shown, ih h.2]
    · simp [hb, Segment.shown, ih h.2]

/-! ## Characters and their bytes -/

theorem tail_bounds (n : Nat) : Bytes.isDigit (UInt8.ofNat (n % 64 + 128)) = false ∧
    isTerminator (UInt8.ofNat (n % 64 + 128)) = false := by
  simp only [Bytes.isDigit, isTerminator, isBracket, Bool.and_eq_false_iff, decide_eq_false_iff_not,
    Bool.or_eq_false_iff, UInt8.le_iff_toNat_le, ← UInt8.toNat_inj, UInt8.toNat_ofNat']
  simp only [UInt8.reduceToNat]
  omega

theorem tail_eq_lead (n : Nat) : (UInt8.ofNat (n % 64 + 128) == lead) = (n % 64 == 0) := by
  rw [Bool.eq_iff_iff, beq_iff_eq, beq_iff_eq, ← UInt8.toNat_inj, UInt8.toNat_ofNat', lead]
  simp only [UInt8.reduceToNat]
  omega

/-- Behind a byte with a tail after it stands no body: only the last byte of a character counts. -/
theorem holds_cons_tail (b : UInt8) (n : Nat) (rest : Bytes) :
    holds (· == lead) Bytes.isDigit isTerminator (b :: UInt8.ofNat (n % 64 + 128) :: rest) =
      holds (· == lead) Bytes.isDigit isTerminator (UInt8.ofNat (n % 64 + 128) :: rest) := by
  rw [holds, isBody, (tail_bounds n).1]
  simp

theorem holds_encode (c : Char) (rest : Bytes) :
    holds (· == lead) Bytes.isDigit isTerminator (String.utf8EncodeChar c ++ rest) =
      ((endsInLead c && isBody Bytes.isDigit isTerminator rest) ||
        holds (· == lead) Bytes.isDigit isTerminator rest) := by
  unfold String.utf8EncodeChar endsInLead
  have hnum : c.val.toNat = c.toNat := rfl
  dsimp only
  rw [hnum]
  -- a case for each length of an encoding; every byte but the last has a tail behind it
  split
  · have hne : (UInt8.ofNat c.toNat == lead) = false := by
      rw [beq_eq_false_iff_ne, ne_eq, ← UInt8.toNat_inj, UInt8.toNat_ofNat', lead]
      simp only [UInt8.reduceToNat]
      omega
    have hlow : ¬128 ≤ c.toNat := by omega
    simp [holds, hne, hlow]
  · have hhigh : 128 ≤ c.toNat := by omega
    split
    case' isFalse => split
    all_goals
      simp only [List.cons_append, List.nil_append, holds_cons_tail]
      rw [holds, tail_eq_lead]
      simp [hhigh]

theorem isDigit_ofNat {c : Char} (h : c.toNat < 128) :
    Bytes.isDigit (UInt8.ofNat c.toNat) = c.isDigit := by
  simp only [Bytes.isDigit, Char.isDigit, UInt8.le_iff_toNat_le, UInt8.toNat_ofNat', ge_iff_le,
    UInt32.le_iff_toNat_le]
  simp only [UInt8.reduceToNat, Char.toNat] at h ⊢
  grind

theorem isTerminator_ofNat {c : Char} (h : c.toNat < 128) :
    isTerminator (UInt8.ofNat c.toNat) = isTerminatorChar c := by
  simp only [isTerminator, isTerminatorChar, isBracket, ← UInt8.toNat_inj, UInt8.toNat_ofNat',
    List.contains_cons]
  simp [← Char.toNat_inj, beq_eq_decide]
  grind

theorem high_bounds {c : Char} (h : 128 ≤ c.toNat) :
    c.isDigit = false ∧ isTerminatorChar c = false := by
  constructor
  · simp only [Char.isDigit, Char.toNat, ge_iff_le, UInt32.le_iff_toNat_le] at h ⊢
    have hnine : ('9' : Char).val.toNat = 57 := rfl
    rw [Bool.and_eq_false_iff, decide_eq_false_iff_not, decide_eq_false_iff_not, hnine]
    omega
  · simp [isTerminatorChar, ← Char.toNat_inj]
    omega

theorem high_byte_bounds {b : UInt8} (h : 128 ≤ b.toNat) :
    Bytes.isDigit b = false ∧ isTerminator b = false := by
  simp only [Bytes.isDigit, isTerminator, isBracket, Bool.and_eq_false_iff, decide_eq_false_iff_not,
    Bool.or_eq_false_iff, UInt8.le_iff_toNat_le, ← UInt8.toNat_inj]
  simp only [UInt8.reduceToNat]
  omega

theorem closes_encode (c : Char) (rest : Bytes) :
    closes Bytes.isDigit isTerminator (String.utf8EncodeChar c ++ rest) =
      (isTerminatorChar c || (c.isDigit && closes Bytes.isDigit isTerminator rest)) := by
  by_cases hc : c.toNat < 128
  · rw [Utf8.encode_ascii hc, List.singleton_append, closes, isTerminator_ofNat hc, isDigit_ofNat hc]
  · obtain ⟨b, tail, henc⟩ := List.exists_cons_of_ne_nil (Utf8.encode_ne_nil c)
    have hb : 128 ≤ b.toNat := Utf8.le_of_mem_encode (Nat.le_of_not_lt hc) (henc ▸ List.mem_cons_self)
    obtain ⟨hdigit, hterm⟩ := high_bounds (Nat.le_of_not_lt hc)
    obtain ⟨hdigit', hterm'⟩ := high_byte_bounds hb
    rw [henc, List.cons_append, closes, hdigit, hterm, hdigit', hterm']
    rfl

theorem isBody_encode (c : Char) (rest : Bytes) :
    isBody Bytes.isDigit isTerminator (String.utf8EncodeChar c ++ rest) =
      (c.isDigit && closes Bytes.isDigit isTerminator rest) := by
  by_cases hc : c.toNat < 128
  · rw [Utf8.encode_ascii hc, List.singleton_append, isBody, isDigit_ofNat hc]
  · obtain ⟨b, tail, henc⟩ := List.exists_cons_of_ne_nil (Utf8.encode_ne_nil c)
    have hb : 128 ≤ b.toNat := Utf8.le_of_mem_encode (Nat.le_of_not_lt hc) (henc ▸ List.mem_cons_self)
    rw [henc, List.cons_append, isBody, (high_bounds (Nat.le_of_not_lt hc)).1, (high_byte_bounds hb).1]
    rfl

theorem closes_ofChars (s : List Char) : closes Bytes.isDigit isTerminator (Utf8.ofChars s) =
    closes Char.isDigit isTerminatorChar s := by
  induction s with
  | nil => rfl
  | cons c s ih => rw [Utf8.ofChars, List.flatMap_cons, closes_encode, ← Utf8.ofChars, ih, closes]

theorem isBody_ofChars (s : List Char) : isBody Bytes.isDigit isTerminator (Utf8.ofChars s) =
    isBody Char.isDigit isTerminatorChar s := by
  cases s with
  | nil => rfl
  | cons c s => rw [Utf8.ofChars, List.flatMap_cons, isBody_encode, ← Utf8.ofChars, closes_ofChars, isBody]

theorem holds_ofChars (s : List Char) :
    holds (· == lead) Bytes.isDigit isTerminator (Utf8.ofChars s) = lookalike s := by
  unfold lookalike
  induction s with
  | nil => rfl
  | cons c s ih =>
    rw [Utf8.ofChars, List.flatMap_cons, holds_encode, ← Utf8.ofChars, isBody_ofChars, ih, holds]

end Markup

/-! ## Revising a line without tokens -/

namespace SubstituteRequest

theorem sameTokens_of_tokens_eq_nil {line new : Bytes} (h : Markup.tokens line = []) :
    Markup.sameTokens line new = true ↔ Markup.tokens new = [] := by
  rw [Markup.sameTokens, (Markup.tokenTexts_eq_nil line).mpr h, beq_iff_eq, eq_comm,
    Markup.tokenTexts_eq_nil]

theorem run_lift_bind {a : α} {f : α → Query β} (notes : Recall) :
    ((liftM (Except.ok a : Except Breach α) : Query α) >>= f).run.run notes =
      (f a).run.run notes := rfl

/-- A revision of a line without tokens is refused for its markup when the new text has a token. -/
theorem revise_markupAltered {r : SubstituteRequest} {limit : Nat} {line : Bytes}
    (h : Markup.tokens line = []) (notes notes' : Recall) :
    (r.revise limit line).run.run notes = .ok (.error .markupAltered, notes') ↔
      notes' = notes ∧ ∃ new, Substitution.apply r.matcher r.template r.which limit line =
        .ok (.replaced new) ∧ Markup.tokens new ≠ [] := by
  rw [revise_eq]
  cases ha : Substitution.apply r.matcher r.template r.which limit line with
  | error b =>
    constructor
    · rintro ⟨⟩
    · rintro ⟨-, new, ⟨⟩, -⟩
  | ok revision =>
    cases revision with
    | unchanged =>
      constructor
      · rintro ⟨⟩
      · rintro ⟨-, new, ⟨⟩, -⟩
    | tooLong =>
      constructor
      · rintro ⟨⟩
      · rintro ⟨-, new, ⟨⟩, -⟩
    | replaced new =>
      have hnew : Markup.sameTokens line new = true ↔ _ := sameTokens_of_tokens_eq_nil h
      rw [run_lift_bind]
      dsimp only
      by_cases hs : Markup.sameTokens line new = true
      · rw [if_pos hs]
        constructor
        · rintro ⟨⟩
        · rintro ⟨-, _, ⟨⟩, hne⟩
          exact absurd (hnew.mp hs) hne
      · rw [if_neg hs]
        constructor
        · rintro ⟨⟩
          exact ⟨rfl, new, rfl, fun hnil => hs (hnew.mpr hnil)⟩
        · rintro ⟨rfl, -⟩
          rfl

end SubstituteRequest

namespace Markup

/-- Text has no tokens, is shown as it is and is revised freely unless some of it looks like a token,
and then it does have one. -/
theorem text_unmarked (s : List Char) :
    (tokens (Utf8.ofChars s) = [] ↔ lookalike s = false) ∧
      (lookalike s = false → display (Utf8.ofChars s) = Utf8.ofChars s ∧
        ∀ (r : SubstituteRequest) (limit : Nat) (notes notes' : Recall),
          (r.revise limit (Utf8.ofChars s)).run.run notes = .ok (.error .markupAltered, notes') ↔
            notes' = notes ∧
              ∃ new, Substitution.apply r.matcher r.template r.which limit (Utf8.ofChars s) =
                .ok (.replaced new) ∧ tokens new ≠ []) := by
  have htokens : tokens (Utf8.ofChars s) = [] ↔ lookalike s = false := by
    rw [tokens_eq_nil, holds_ofChars]
  refine ⟨htokens, fun hs => ⟨display_of_tokens_eq_nil (htokens.mpr hs), ?_⟩⟩
  intro r limit notes notes'
  exact SubstituteRequest.revise_markupAltered (htokens.mpr hs) notes notes'

theorem text_unmarked_brackets :
    lookalike ['À', '{', '1', '}'] = false ∧
      tokens (Utf8.ofChars ['À', '{', '1', '}']) = [] ∧
      display (Utf8.ofChars ['À', '{', '1', '}']) = Utf8.ofChars ['À', '{', '1', '}'] := by
  have hs : lookalike ['À', '{', '1', '}'] = false := by decide
  have h := text_unmarked ['À', '{', '1', '}']
  exact ⟨hs, h.1.mpr hs, (h.2 hs).1⟩

/-- An accented letter, a digit and a bracket that nobody marked: a token is found, and a part of the
letter and the digit are not shown. -/
theorem accented_letter_starts_token :
    tokens (Utf8.ofChars ['À', '1', '{']) = [(1, 4)] ∧
      display (Utf8.ofChars ['À', '1', '{']) = [0xC3, 0x7B] := by
  decide

end Markup

end LineEditor
