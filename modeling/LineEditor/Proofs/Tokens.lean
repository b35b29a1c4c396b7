import LineEditor.Proofs.Lookalikes
import LineEditor.Proofs.Replacing

/-!
# Where tokens stand

A scan finds the tokens of a line one behind the other and goes on behind each that it finds. It passes
over none, for a lead byte is neither a digit nor a terminator, so that no token begins within another.
What is shown of the line is the line with a text in place of each token that stands in it.
-/

namespace LineEditor

theorem Template.cut_append (before text behind : Bytes) :
    cut (before ++ (text ++ behind)) before.length (before.length + text.length) = text := by
  simp [cut]

namespace Markup

/-- The terminators that stay visible. -/
def brackets : Bytes := Utf8.ofChars ['{', '}', '<', '>']

def terminators : Bytes := brackets ++ Utf8.ofChars ['*', '#']

/-- A token, by what is written behind its lead byte. -/
structure Token where
  digits : Bytes
  terminator : UInt8
  digits_ne_nil : digits ≠ []
  isDigit : ∀ d ∈ digits, Bytes.isDigit d = true
  mem_terminators : terminator ∈ terminators

namespace Token

def text (k : Token) : Bytes := lead :: k.digits ++ [k.terminator]

/-- The token is written in the line from one place up to another. -/
def StandsAt (k : Token) (line : Bytes) (start stop : Nat) : Prop :=
  ∃ before behind, line = before ++ k.text ++ behind ∧ start = before.length ∧
    stop = start + k.text.length

end Token

/-- The terminator of a token, if it is one that stays visible. -/
def visible (token : Bytes) : Bytes := token.getLast?.toList.filter (· ∈ brackets)

/-- The line from `done` on with a text in place of each span. -/
def replaceSpans (line : Bytes) (text : Bytes → Bytes) : Nat → List (Nat × Nat) → Bytes
  | done, [] => line.drop done
  | done, (start, stop) :: spans =>
    Template.cut line done start ++ text (Template.cut line start stop) ++
      replaceSpans line text stop spans

theorem isBracket_iff {b : UInt8} : isBracket b = true ↔ b ∈ brackets := by
  have hbrackets : brackets = [0x7B, 0x7D, 0x3C, 0x3E] := by decide
  simp [isBracket, hbrackets, or_assoc]

theorem isTerminator_iff {b : UInt8} : isTerminator b = true ↔ b ∈ terminators := by
  have hothers : Utf8.ofChars ['*', '#'] = [0x2A, 0x23] := by decide
  simp [isTerminator, isBracket_iff, terminators, hothers, or_assoc]

/-! ## Segments and their spans -/

namespace Segment

variable {s : Segment}

theorem raw_pos (s : Segment) : 0 < s.raw.length := by
  cases s <;> simp [raw]

theorem shown_of_plain (h : ¬s.isToken = true) : s.shown = s.raw := by
  cases s with
  | token digits t => exact absurd rfl h
  | plain b => rfl

theorem shown_of_token (h : s.isToken = true) : s.shown = visible s.raw := by
  cases s with
  | token digits t =>
    have hlast : (lead :: digits ++ [t]).getLast? = some t := List.getLast?_concat
    rw [raw, visible, hlast, shown]
    by_cases ht : isBracket t = true
    · simp [ht, isBracket_iff.mp ht]
    · simp [ht, mt isBracket_iff.mpr ht]
  | plain b => cases h

theorem shown_lt_raw (h : s.isToken = true) : s.shown.length < s.raw.length := by
  cases s with
  | token digits t =>
    rw [shown, raw]
    split <;> simp
  | plain b => cases h

end Segment

section
variable {s : Segment} {l : List Segment} {origin : Nat}

theorem tokenSpans_token (h : s.isToken = true) : tokenSpans origin (s :: l) =
    (origin, origin + s.raw.length) :: tokenSpans (origin + s.raw.length) l := by
  rw [tokenSpans]
  exact if_pos h

theorem tokenSpans_plain (h : ¬s.isToken = true) :
    tokenSpans origin (s :: l) = tokenSpans (origin + s.raw.length) l := by
  rw [tokenSpans]
  exact if_neg h

theorem le_of_mem_tokenSpans {span : Nat × Nat} (h : span ∈ tokenSpans origin l) : origin ≤ span.1 := by
  induction l generalizing origin with
  | nil => cases h
  | cons s l ih =>
    by_cases hs : s.isToken = true
    · rw [tokenSpans_token hs] at h
      rcases List.mem_cons.mp h with rfl | hmem
      · exact Nat.le_refl _
      · exact Nat.le_of_add_right_le (ih hmem)
    · rw [tokenSpans_plain hs] at h
      exact Nat.le_of_add_right_le (ih h)

theorem tokenSpans_pairwise (origin : Nat) (l : List Segment) :
    (tokenSpans origin l).Pairwise fun a b => a.1 < b.1 ∧ a.2 ≤ b.1 := by
  induction l generalizing origin with
  | nil => exact .nil
  | cons s l ih =>
    by_cases hs : s.isToken = true
    · rw [tokenSpans_token hs, List.pairwise_cons]
      refine ⟨fun span hspan => ?_, ih _⟩
      have hle := le_of_mem_tokenSpans hspan
      exact ⟨Nat.lt_of_lt_of_le (Nat.lt_add_of_pos_right s.raw_pos) hle, hle⟩
    · rw [tokenSpans_plain hs]
      exact ih _

theorem map_cut_tokenSpans (before : Bytes) (l : List Segment) :
    (tokenSpans before.length l).map
        (fun span => Template.cut (before ++ l.flatMap Segment.raw) span.1 span.2) =
      (l.filter Segment.isToken).map Segment.raw := by
  induction l generalizing before with
  | nil => rfl
  | cons s l ih =>
    have hrest := ih (before ++ s.raw)
    rw [List.length_append, List.append_assoc] at hrest
    rw [List.flatMap_cons]
    by_cases hs : s.isToken = true
    · rw [tokenSpans_token hs, List.map_cons, hrest, List.filter_cons_of_pos hs, List.map_cons,
        Template.cut_append]
    · rw [tokenSpans_plain hs, hrest, List.filter_cons_of_neg hs]

/-- What stands from `done` up to the first segment is plain. -/
theorem replaceSpans_tokenSpans (before : Bytes) (l : List Segment) {done : Nat}
    (h : done ≤ before.length) :
    replaceSpans (before ++ l.flatMap Segment.raw) visible done (tokenSpans before.length l) =
      before.drop done ++ l.flatMap Segment.shown := by
  induction l generalizing before done with
  | nil => simp [tokenSpans, replaceSpans]
  | cons s l ih =>
    have hrest {done' : Nat} (hle : done' ≤ (before ++ s.raw).length) := ih (before ++ s.raw) hle
    rw [List.length_append, List.append_assoc] at hrest
    rw [List.flatMap_cons, List.flatMap_cons]
    by_cases hs : s.isToken = true
    · have hgap : Template.cut (before ++ (s.raw ++ l.flatMap Segment.raw)) done before.length =
          before.drop done := by
        rw [Template.cut, List.drop_append_of_le_length h, List.take_left' (List.length_drop)]
      have hdone : (before ++ s.raw).drop (before.length + s.raw.length) = [] :=
        List.drop_eq_nil_of_le (Nat.le_of_eq List.length_append)
      rw [tokenSpans_token hs, replaceSpans, hgap, Template.cut_append, hrest (Nat.le_refl _), hdone,
        Segment.shown_of_token hs, List.nil_append, List.append_assoc]
    · rw [tokenSpans_plain hs, hrest (Nat.le_add_right_of_le h), List.drop_append_of_le_length h,
        Segment.shown_of_plain hs, List.append_assoc]

theorem length_shown_add_le (l : List Segment) :
    (l.flatMap Segment.shown).length + l.countP Segment.isToken ≤ (l.flatMap Segment.raw).length := by
  induction l with
  | nil => exact Nat.le_refl _
  | cons s l ih =>
    rw [List.flatMap_cons, List.flatMap_cons, List.length_append, List.length_append]
    by_cases hs : s.isToken = true
    · have hlt := Segment.shown_lt_raw hs
      rw [List.countP_cons_of_pos hs]
      omega
    · rw [List.countP_cons_of_neg hs, Segment.shown_of_plain hs]
      omega

end

/-! ## A token at the front -/

namespace Token

variable {k k' : Token} {rest rest' : Bytes}

theorem text_append (k : Token) (rest : Bytes) :
    k.text ++ rest = lead :: (k.digits ++ k.terminator :: rest) := by
  simp [text]

theorem text_length (k : Token) : k.text.length = k.digits.length + 2 := by
  simp [text]

theorem not_digit (k : Token) : ¬Bytes.isDigit k.terminator = true := by
  intro hdigit
  have hterm := isTerminator_iff.mpr k.mem_terminators
  rw [not_terminator_of_digit hdigit] at hterm
  cases hterm

theorem lead_not_mem (k : Token) : lead ∉ k.digits ++ [k.terminator] := by
  have hdigit : Bytes.isDigit lead = false := by decide
  have hterm : isTerminator lead = false := by decide
  intro h
  rcases List.mem_append.mp h with h | h
  · rw [k.isDigit lead h] at hdigit
    cases hdigit
  · rw [List.mem_singleton.mp h, isTerminator_iff.mpr k.mem_terminators] at hterm
    cases hterm

theorem tokenBody_text (k : Token) (rest : Bytes) :
    tokenBody (k.digits ++ k.terminator :: rest) = some (k.digits, k.terminator) := by
  have hdigits : (k.digits ++ k.terminator :: rest).takeWhile Bytes.isDigit = k.digits := by
    rw [List.takeWhile_append_of_pos k.isDigit, List.takeWhile_cons_of_neg k.not_digit,
      List.append_nil]
  have hsome : ¬k.digits.isEmpty = true := by simp [k.digits_ne_nil]
  unfold tokenBody
  dsimp only
  rw [hdigits, if_neg hsome, List.drop_left]
  exact if_pos (isTerminator_iff.mpr k.mem_terminators)

theorem text_inj (h : k.text ++ rest = k'.text ++ rest') : k.text = k'.text := by
  rw [k.text_append, k'.text_append] at h
  have hbody := k.tokenBody_text rest
  rw [(List.cons.inj h).2, k'.tokenBody_text, Option.some.injEq, Prod.mk.injEq] at hbody
  rw [text, text, hbody.1, hbody.2]

/-- No token begins within another. -/
theorem behind_text {before behind : Bytes} (h : k.text ++ rest = before ++ (k'.text ++ behind)) :
    before = [] ∨ ∃ between, before = k.text ++ between ∧ rest = between ++ (k'.text ++ behind) := by
  rcases List.append_eq_append_iff.mp h with hbehind | ⟨inner, htext, hinner⟩
  · exact .inr hbehind
  · cases inner with
    | nil => exact .inr ⟨[], by simpa using htext.symm, hinner.symm⟩
    | cons d inner =>
      cases before with
      | nil => exact .inl rfl
      | cons c before =>
        -- the lead byte of the second token would stand behind that of the first
        have hlead : d = lead := by
          rw [text_append] at hinner
          exact (List.cons.inj hinner).1.symm
        have htail : k.digits ++ [k.terminator] = before ++ d :: inner := (List.cons.inj htext).2
        have hmem : lead ∈ k.digits ++ [k.terminator] := by simp [htail, hlead]
        exact absurd hmem k.lead_not_mem

end Token

theorem exists_token {s digits : Bytes} {t : UInt8} (h : tokenBody s = some (digits, t)) :
    ∃ (k : Token) (rest : Bytes), s = k.digits ++ k.terminator :: rest := by
  unfold tokenBody at h
  dsimp only at h
  split at h
  · cases h
  · rename_i hsome
    split at h
    · rename_i t' rest hdrop
      split at h
      · rename_i hterm
        have hne : s.takeWhile Bytes.isDigit ≠ [] := by simpa using hsome
        have hdigits := List.all_eq_true.mp (List.all_takeWhile (p := Bytes.isDigit) (l := s))
        refine ⟨⟨s.takeWhile Bytes.isDigit, t', hne, hdigits, isTerminator_iff.mp hterm⟩, rest, ?_⟩
        rw [← hdrop, drop_digits, List.takeWhile_append_dropWhile]
      · cases h
    · cases h

/-! ## The scan -/

theorem segments_token (k : Token) (rest : Bytes) :
    segments (k.text ++ rest) = .token k.digits k.terminator :: segments rest := by
  have hrest : (k.digits ++ k.terminator :: rest).drop (k.digits.length + 1) = rest := by simp
  rw [k.text_append, segments, segmentsFrom, if_pos rfl, k.tokenBody_text]
  dsimp only
  rw [segmentsFrom_eq, hrest]

theorem segments_plain {b : UInt8} {rest : Bytes}
    (h : ∀ (k : Token) (behind : Bytes), b :: rest ≠ k.text ++ behind) :
    segments (b :: rest) = .plain b :: segments rest := by
  rw [segments, segmentsFrom]
  by_cases hb : b = lead
  · cases hbody : tokenBody rest with
    | none => rw [if_pos hb, segments]
    | some found =>
      obtain ⟨k, behind, hrest⟩ := exists_token hbody
      exact absurd (by rw [k.text_append, hb, hrest]) (h k behind)
  · rw [if_neg hb, segments]

/-- The cases of the scan: nothing is left, a token stands at the front, or a byte where none does. -/
@[elab_as_elim]
theorem scan_induction {motive : Bytes → Prop} (line : Bytes) (nil : motive [])
    (token : ∀ (k : Token) (rest : Bytes), motive rest → motive (k.text ++ rest))
    (plain : ∀ (b : UInt8) (rest : Bytes), (∀ (k : Token) (behind : Bytes),
      b :: rest ≠ k.text ++ behind) → motive rest → motive (b :: rest)) : motive line := by
  generalize hsize : line.length = size
  induction size using Nat.strong_induction_on generalizing line with
  | _ size ih =>
    by_cases hfront : ∃ (k : Token) (rest : Bytes), line = k.text ++ rest
    · obtain ⟨k, rest, rfl⟩ := hfront
      rw [List.length_append, k.text_length] at hsize
      exact token k rest (ih rest.length (by omega) rest rfl)
    · cases line with
      | nil => exact nil
      | cons b rest =>
        rw [List.length_cons] at hsize
        exact plain b rest (fun k behind heq => hfront ⟨k, behind, heq⟩)
          (ih rest.length (by omega) rest rfl)

/-! ## Places -/

namespace Token

/-- The same in a line that begins at `origin`. -/
def StandsFrom (k : Token) (origin : Nat) (line : Bytes) (start stop : Nat) : Prop :=
  ∃ before behind, line = before ++ k.text ++ behind ∧ start = origin + before.length ∧
    stop = start + k.text.length

variable {k k' : Token} {rest : Bytes} {origin start stop : Nat}

theorem standsFrom_zero {line : Bytes} : k.StandsFrom 0 line start stop ↔ k.StandsAt line start stop := by
  simp only [StandsFrom, StandsAt, Nat.zero_add]

theorem not_standsFrom_nil : ¬k.StandsFrom origin [] start stop := by
  rintro ⟨before, behind, heq, -⟩
  simp [text] at heq

/-- Where no token stands at the front, the first byte is passed over. -/
theorem standsFrom_plain {b : UInt8} (h : ∀ behind, b :: rest ≠ k.text ++ behind) :
    k.StandsFrom origin (b :: rest) start stop ↔ k.StandsFrom (origin + 1) rest start stop := by
  constructor
  · rintro ⟨before, behind, heq, hstart, hstop⟩
    cases before with
    | nil => exact absurd heq (h behind)
    | cons c before =>
      rw [List.length_cons] at hstart
      exact ⟨before, behind, (List.cons.inj heq).2, by omega, hstop⟩
  · rintro ⟨before, behind, rfl, hstart, hstop⟩
    refine ⟨b :: before, behind, rfl, ?_, hstop⟩
    rw [List.length_cons]
    omega

/-- Where one stands at the front, the others stand behind it. -/
theorem standsFrom_token : k'.StandsFrom origin (k.text ++ rest) start stop ↔
    (k'.text = k.text ∧ start = origin ∧ stop = origin + k.text.length) ∨
      k'.StandsFrom (origin + k.text.length) rest start stop := by
  constructor
  · rintro ⟨before, behind, heq, rfl, rfl⟩
    rw [List.append_assoc] at heq
    rcases behind_text heq with rfl | ⟨between, rfl, hrest⟩
    · have hsame := text_inj heq
      exact .inl ⟨hsame.symm, rfl, by rw [hsame]; rfl⟩
    · rw [← List.append_assoc] at hrest
      refine .inr ⟨between, behind, hrest, ?_, rfl⟩
      rw [List.length_append, Nat.add_assoc]
  · rintro (⟨htext, rfl, rfl⟩ | ⟨before, behind, rfl, rfl, rfl⟩)
    · exact ⟨[], rest, by rw [htext]; rfl, rfl, by rw [htext]⟩
    · refine ⟨k.text ++ before, behind, by simp only [List.append_assoc], ?_, rfl⟩
      rw [List.length_append, Nat.add_assoc]

end Token

/-- By the cases of the scan, the place of what is left moving on with it. -/
theorem mem_tokenSpans {line : Bytes} {origin start stop : Nat} :
    (start, stop) ∈ tokenSpans origin (segments line) ↔
      ∃ k : Token, k.StandsFrom origin line start stop := by
  induction line using scan_induction generalizing origin with
  | nil =>
    constructor
    · rintro ⟨⟩
    · rintro ⟨k, hk⟩
      exact absurd hk Token.not_standsFrom_nil
  | token k rest ih =>
    have hraw : (Segment.token k.digits k.terminator).raw = k.text := rfl
    rw [segments_token, tokenSpans_token rfl, hraw, List.mem_cons, Prod.mk.injEq, ih]
    constructor
    · rintro (hfirst | ⟨k', hk'⟩)
      · exact ⟨k, Token.standsFrom_token.mpr (.inl ⟨rfl, hfirst⟩)⟩
      · exact ⟨k', Token.standsFrom_token.mpr (.inr hk')⟩
    · rintro ⟨k', hk'⟩
      rcases Token.standsFrom_token.mp hk' with ⟨-, hfirst⟩ | hrest
      · exact .inl hfirst
      · exact .inr ⟨k', hrest⟩
  | plain b rest h ih =>
    have hplain : ¬(Segment.plain b).isToken = true := Bool.false_ne_true
    have hraw : (Segment.plain b).raw.length = 1 := rfl
    rw [segments_plain h, tokenSpans_plain hplain, hraw, ih]
    exact exists_congr fun k => (Token.standsFrom_plain (h k)).symm

theorem mem_tokens {line : Bytes} {start stop : Nat} :
    (start, stop) ∈ tokens line ↔ ∃ k : Token, k.StandsAt line start stop := by
  rw [tokens, mem_tokenSpans]
  exact exists_congr fun k => Token.standsFrom_zero

theorem display_eq_self_iff (line : Bytes) : display line = line ↔ tokens line = [] := by
  constructor
  · intro h
    have hle := length_shown_add_le (segments line)
    rw [segments_raw, ← display, h] at hle
    have hnone : (segments line).countP Segment.isToken = 0 := by omega
    rw [tokens, tokenSpans_eq_nil, List.any_eq_false]
    exact List.countP_eq_zero.mp hnone
  · exact display_of_tokens_eq_nil

/-- The tokens found in a line are those that stand in it, in order and apart; it is shown with the
visible terminator of each in its place, so as it is only if there are none; and a newline parts the
tokens before it from those behind it. -/
theorem tokens_exact (line : Bytes) :
    (tokens line).Pairwise (fun a b => a.1 < b.1 ∧ a.2 ≤ b.1) ∧
      (∀ start stop, (start, stop) ∈ tokens line ↔ ∃ k : Token, k.StandsAt line start stop) ∧
      display line = replaceSpans line visible 0 (tokens line) ∧
      (display line = line ↔ tokens line = []) ∧
      tokenTexts line = (tokens line).map (fun span => Template.cut line span.1 span.2) ∧
      ∀ behind, tokenTexts (line ++ Bytes.newline :: behind) = tokenTexts line ++ tokenTexts behind := by
  have hshown := replaceSpans_tokenSpans [] (segments line) (Nat.zero_le _)
  have htexts := map_cut_tokenSpans [] (segments line)
  rw [segments_raw] at hshown htexts
  exact ⟨tokenSpans_pairwise 0 _, fun _ _ => mem_tokens, hshown.symm, display_eq_self_iff line,
    htexts.symm, tokenTexts_append line⟩

/-- A lead byte before a token and digits that no terminator follows are shown as they are. -/
example :
    let line : Bytes := [0x80, 0x80, 0x31, 0x32, 0x7B, 0x61, 0x80, 0x30]
    tokens line = [(1, 5)] ∧ display line = [0x80, 0x7B, 0x61, 0x80, 0x30] := by
  decide

end Markup

end LineEditor
