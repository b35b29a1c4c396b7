import LineEditor.Command.SubstituteRequest
import LineEditor.Proofs.Addresses
import Mathlib.Data.List.Basic

/-!
# Flags of a substitution

The flags of a substitution may stand in any order, and their order says nothing. They are read
character by character, letters as they come and the digits gathered, so what is read of a text is known
from how often its letters occur and from its digits alone. This goes too far where the digits do not
stand together: letters between them do not keep them from being one number.
-/

namespace LineEditor

/-- A flag as it is written. -/
inductive SubstituteFlag where
  | all
  | ignoreCase
  | number (digits : List Char)
  | print (style : PrintStyle)
  deriving DecidableEq

namespace SubstituteFlag

def text : SubstituteFlag → List Char
  | all => ['g']
  | ignoreCase => ['i']
  | number digits => digits
  | print style => [style.letter]

def spell (flags : List SubstituteFlag) : List Char := flags.flatMap text

def digits? : SubstituteFlag → Option (List Char)
  | number digits => some digits
  | _ => none

def style? : SubstituteFlag → Option PrintStyle
  | print style => some style
  | _ => none

def numbers (flags : List SubstituteFlag) : List (List Char) := flags.filterMap digits?

def styles (flags : List SubstituteFlag) : List PrintStyle := flags.filterMap style?

/-- Flags that may stand together: numbers of matches, at most one of `g` and a number, and at most one
letter to print. -/
structure Documented (flags : List SubstituteFlag) : Prop where
  digits : ∀ digits ∈ numbers flags, ∀ c ∈ digits, c.isDigit = true
  number : ∀ digits ∈ numbers flags,
    1 ≤ Number.ofDigits digits ∧ Number.ofDigits digits ≤ Number.maxCount
  occurrence : flags.count all + (numbers flags).length ≤ 1
  print : (styles flags).length ≤ 1

/-- What flags ask for. -/
def meaning (flags : List SubstituteFlag) : SubstituteFlags where
  which := if all ∈ flags then some .all
    else (numbers flags).head?.map fun digits => .nth (Number.ofDigits digits)
  ignoreCase := ignoreCase ∈ flags
  print := (styles flags).head?

end SubstituteFlag

namespace SubstituteFlags

/-! ## The reading of a text -/

/-- The letters that print, in order. -/
def styles (s : List Char) : List PrintStyle := s.filterMap PrintStyle.ofLetter?

def digits (s : List Char) : List Char := s.filter Char.isDigit

/-- What has been read behind a text. -/
def Partial.gather (p : Partial) (s : List Char) : Partial where
  all := p.all || 'g' ∈ s
  ignoreCase := p.ignoreCase || 'i' ∈ s
  print := p.print.or (styles s).head?
  digits := p.digits ++ SubstituteFlags.digits s

def isFlag (c : Char) : Bool :=
  c = 'g' || c = 'i' || c.isDigit || (PrintStyle.ofLetter? c).isSome

/-- A text that can be read on from here. -/
structure Partial.Fits (p : Partial) (s : List Char) : Prop where
  flags : ∀ c ∈ s, isFlag c = true
  all : p.all.toNat + s.count 'g' ≤ 1
  print : p.print.toList.length + (styles s).length ≤ 1

theorem ofLetter?_letter (style : PrintStyle) : PrintStyle.ofLetter? style.letter = some style := by
  cases style <;> rfl

theorem ofLetter?_eq_some {c : Char} {style : PrintStyle} :
    PrintStyle.ofLetter? c = some style ↔ c = style.letter := by
  constructor
  · intro h
    unfold PrintStyle.ofLetter? at h
    split at h
    · cases h
      assumption
    split at h
    · cases h
      assumption
    split at h
    · cases h
      assumption
    · cases h
  · rintro rfl
    exact ofLetter?_letter style

theorem ofLetter?_digit {c : Char} (h : c.isDigit = true) : PrintStyle.ofLetter? c = none := by
  rw [Option.eq_none_iff_forall_not_mem]
  intro style hstyle
  rw [ofLetter?_eq_some.mp hstyle] at h
  cases style <;> cases h

/-- A flag is of one kind only. -/
theorem isFlag_cases {c : Char} (h : isFlag c = true) :
    c = 'g' ∨ c = 'i' ∨ (c.isDigit = true ∧ PrintStyle.ofLetter? c = none) ∨
      ∃ style : PrintStyle, c = style.letter := by
  unfold isFlag at h
  simp only [Bool.or_eq_true, decide_eq_true_eq, Option.isSome_iff_exists, ofLetter?_eq_some] at h
  rcases h with ((hg | hi) | hdigit) | hstyle
  · exact .inl hg
  · exact .inr (.inl hi)
  · exact .inr (.inr (.inl ⟨hdigit, ofLetter?_digit hdigit⟩))
  · exact .inr (.inr (.inr hstyle))

namespace Partial

theorem fits_iff {p : Partial} {s : List Char} : p.Fits s ↔ (∀ c ∈ s, isFlag c = true) ∧
    p.all.toNat + s.count 'g' ≤ 1 ∧ p.print.toList.length + (styles s).length ≤ 1 :=
  ⟨fun h => ⟨h.flags, h.all, h.print⟩, fun h => ⟨h.1, h.2.1, h.2.2⟩⟩

theorem add?_eq_some {p q : Partial} {c : Char} :
    p.add? c = some q ↔ p.Fits [c] ∧ q = p.gather [c] := by
  obtain ⟨all, ignoreCase, print, digits⟩ := p
  rw [fits_iff, @eq_comm _ q]
  by_cases hc : isFlag c = true
  · rcases isFlag_cases hc with rfl | rfl | ⟨hdigit, hstyle⟩ | ⟨style, rfl⟩
    · cases all <;> cases print <;>
        simp [add?, gather, styles, SubstituteFlags.digits, PrintStyle.ofLetter?, hc]
    · cases all <;> cases print <;>
        simp [add?, gather, styles, SubstituteFlags.digits, PrintStyle.ofLetter?, hc]
    · have hg : c ≠ 'g' := by
        rintro rfl
        cases hdigit
      have hi : c ≠ 'i' := by
        rintro rfl
        cases hdigit
      cases all <;> cases print <;>
        simp [add?, gather, styles, SubstituteFlags.digits, hstyle, hdigit, hc, hg, hg.symm, hi.symm, hi]
    · cases style <;> cases print <;> cases all <;>
        simp [add?, gather, styles, SubstituteFlags.digits, isFlag, PrintStyle.ofLetter?, PrintStyle.letter]
  · have hnone : add? ⟨all, ignoreCase, print, digits⟩ c = none := by
      simp only [isFlag, Bool.or_eq_true, decide_eq_true_eq, not_or, Bool.not_eq_true,
        Option.isSome_eq_false_iff, Option.isNone_iff_eq_none] at hc
      obtain ⟨⟨⟨hg, hi⟩, hdigit⟩, hstyle⟩ := hc
      simp [add?, hg, hi, hdigit, hstyle]
    simp [hnone, hc]

theorem gather_append (p : Partial) (s t : List Char) :
    (p.gather s).gather t = p.gather (s ++ t) := by
  simp [gather, styles, SubstituteFlags.digits, Bool.or_assoc, Option.or_assoc]

theorem fits_append {p : Partial} {s t : List Char} :
    p.Fits (s ++ t) ↔ p.Fits s ∧ (p.gather s).Fits t := by
  have hall : p.all.toNat + (s ++ t).count 'g' ≤ 1 ↔
      p.all.toNat + s.count 'g' ≤ 1 ∧ (p.gather s).all.toNat + t.count 'g' ≤ 1 := by
    rw [List.count_append]
    change _ ↔ _ ∧ (p.all || decide ('g' ∈ s)).toNat + t.count 'g' ≤ 1
    by_cases hg : 'g' ∈ s
    · have hcount := List.count_pos_iff.mpr hg
      rw [decide_eq_true hg, Bool.or_true, Bool.toNat_true]
      omega
    · rw [decide_eq_false hg, Bool.or_false, List.count_eq_zero.mpr hg]
      have hbit := p.all.toNat_le
      omega
  have hprint : p.print.toList.length + (styles (s ++ t)).length ≤ 1 ↔
      p.print.toList.length + (styles s).length ≤ 1 ∧
        (p.gather s).print.toList.length + (styles t).length ≤ 1 := by
    rw [styles, List.filterMap_append, List.length_append]
    change _ + ((styles s).length + (styles t).length) ≤ 1 ↔
      _ ∧ (p.print.or (styles s).head?).toList.length + _ ≤ 1
    cases p.print <;> cases styles s <;>
      simp only [Option.toList, Option.or, List.head?, List.length] <;> omega
  simp only [fits_iff, hall, hprint, List.forall_mem_append]
  tauto

theorem foldlM_add? {p q : Partial} {s : List Char} :
    s.foldlM add? p = some q ↔ p.Fits s ∧ q = p.gather s := by
  induction s generalizing p with
  | nil =>
    have hfits : p.Fits [] := by
      have hbit := p.all.toNat_le
      refine ⟨by simp, hbit, ?_⟩
      cases p.print <;> simp [styles]
    have hgather : p.gather [] = p := by simp [gather, styles, SubstituteFlags.digits]
    rw [hgather]
    exact ⟨fun h => ⟨hfits, (Option.some.inj h).symm⟩, fun h => congrArg some h.2.symm⟩
  | cons c s ih =>
    rw [List.foldlM_cons, ← List.singleton_append, fits_append, ← gather_append]
    show (p.add? c).bind _ = some q ↔ _
    rw [Option.bind_eq_some_iff]
    simp only [add?_eq_some, ih]
    constructor
    · rintro ⟨_, ⟨hfirst, rfl⟩, hrest, rfl⟩
      exact ⟨⟨hfirst, hrest⟩, rfl⟩
    · rintro ⟨⟨hfirst, hrest⟩, rfl⟩
      exact ⟨_, ⟨hfirst, rfl⟩, hrest, rfl⟩

end Partial

/-- Nothing has been read yet. -/
def blank : Partial := ⟨false, false, none, []⟩

/-- The flags in a text without white space around it. -/
def read? (s : List Char) : Option SubstituteFlags := s.foldlM Partial.add? blank >>= Partial.finish?

theorem parse?_eq (text : List Char) : parse? text = read? (Unicode.trim text) := rfl

theorem read?_eq_some {s : List Char} {flags : SubstituteFlags} :
    read? s = some flags ↔ blank.Fits s ∧ (blank.gather s).finish? = some flags := by
  unfold read?
  rw [Option.bind_eq_bind, Option.bind_eq_some_iff]
  constructor
  · rintro ⟨_, hread, hfinish⟩
    obtain ⟨hfits, rfl⟩ := Partial.foldlM_add?.mp hread
    exact ⟨hfits, hfinish⟩
  · rintro ⟨hfits, hfinish⟩
    exact ⟨_, Partial.foldlM_add?.mpr ⟨hfits, rfl⟩, hfinish⟩

theorem perm_eq_of_length_le_one {l m : List α} (h : l.Perm m) (hl : l.length ≤ 1) : l = m := by
  match l, hl with
  | [], _ => exact (List.nil_perm.mp h).symm
  | [a], _ => exact List.singleton_perm.mp h |>.symm ▸ rfl

/-- Letters may change places, and digits with letters; only among digits the order matters. -/
theorem read?_perm {s t : List Char} (h : s.Perm t) (hdigits : digits s = digits t) :
    read? s = read? t := by
  have hone {s t : List Char} (h : s.Perm t) (hdigits : digits s = digits t)
      {flags : SubstituteFlags} (hread : read? s = some flags) : read? t = some flags := by
    obtain ⟨⟨hflags, hall, hprint⟩, hfinish⟩ := read?_eq_some.mp hread
    have hstyles : styles s = styles t := perm_eq_of_length_le_one (h.filterMap _) (by
      change 0 + _ ≤ 1 at hprint
      omega)
    have hgather : blank.gather s = blank.gather t := by
      unfold Partial.gather
      rw [hstyles, hdigits, decide_eq_decide.mpr h.mem_iff, decide_eq_decide.mpr h.mem_iff]
    refine read?_eq_some.mpr ⟨⟨fun c hc => hflags c (h.mem_iff.mpr hc), ?_, ?_⟩, hgather ▸ hfinish⟩
    · rwa [← h.count_eq]
    · rwa [← hstyles]
  exact Option.ext fun flags => ⟨hone h hdigits, hone h.symm hdigits.symm⟩

end SubstituteFlags

/-! ## Flags in writing -/

namespace SubstituteFlag

open SubstituteFlags (read? blank)

section
variable {flags : List SubstituteFlag}

theorem spell_cons (f : SubstituteFlag) (flags : List SubstituteFlag) :
    spell (f :: flags) = f.text ++ spell flags := rfl

/-- What a text says of the flags that it spells. -/
structure Spells (s : List Char) (flags : List SubstituteFlag) : Prop where
  isFlag : ∀ c ∈ s, SubstituteFlags.isFlag c = true
  count_all : s.count 'g' = flags.count all
  mem_ignoreCase : 'i' ∈ s ↔ ignoreCase ∈ flags
  styles_eq : SubstituteFlags.styles s = styles flags
  digits_eq : SubstituteFlags.digits s = (numbers flags).flatten

theorem Spells.append {s t : List Char} {flags flags' : List SubstituteFlag} (h : Spells s flags)
    (h' : Spells t flags') : Spells (s ++ t) (flags ++ flags') where
  isFlag := List.forall_mem_append.mpr ⟨h.isFlag, h'.isFlag⟩
  count_all := by rw [List.count_append, List.count_append, h.count_all, h'.count_all]
  mem_ignoreCase := by
    rw [List.mem_append, List.mem_append, h.mem_ignoreCase, h'.mem_ignoreCase]
  styles_eq := by
    have hs := h.styles_eq
    have ht := h'.styles_eq
    unfold SubstituteFlags.styles styles at *
    rw [List.filterMap_append, List.filterMap_append, hs, ht]
  digits_eq := by
    have hs := h.digits_eq
    have ht := h'.digits_eq
    unfold SubstituteFlags.digits numbers at *
    rw [List.filter_append, List.filterMap_append, List.flatten_append, hs, ht]

theorem spells_number {digits : List Char} (h : ∀ c ∈ digits, c.isDigit = true) :
    Spells digits [number digits] where
  isFlag c hc := by simp [SubstituteFlags.isFlag, h c hc]
  count_all := List.count_eq_zero.mpr fun hg => absurd (h _ hg) (by decide)
  mem_ignoreCase := iff_of_false (fun hi => absurd (h _ hi) (by decide)) (by simp)
  styles_eq := List.filterMap_eq_nil_iff.mpr fun c hc => SubstituteFlags.ofLetter?_digit (h c hc)
  digits_eq := (List.filter_eq_self.mpr h).trans (List.append_nil digits).symm

theorem spells_letter {f : SubstituteFlag} (h : digits? f = none) : Spells f.text [f] := by
  cases f with
  | number digits => cases h
  | all => exact ⟨List.forall_mem_singleton.mpr rfl, rfl, by decide, rfl, rfl⟩
  | ignoreCase => exact ⟨List.forall_mem_singleton.mpr rfl, rfl, by decide, rfl, rfl⟩
  | print style => cases style <;> exact ⟨List.forall_mem_singleton.mpr rfl, rfl, by decide, rfl, rfl⟩

theorem spells_nil : Spells [] [] := ⟨by simp, rfl, by simp, rfl, rfl⟩

/-- A spelling says it all. -/
theorem spells_spell (h : ∀ digits ∈ numbers flags, ∀ c ∈ digits, c.isDigit = true) :
    Spells (spell flags) flags := by
  induction flags with
  | nil => exact spells_nil
  | cons f flags ih =>
    rw [spell_cons, ← List.singleton_append]
    unfold numbers at h
    cases hf : digits? f with
    | none =>
      rw [List.filterMap_cons_none hf] at h
      exact (spells_letter hf).append (ih h)
    | some digits =>
      rw [List.filterMap_cons_some hf] at h
      obtain ⟨hdigits, hrest⟩ := List.forall_mem_cons.mp h
      cases f with
      | number _ =>
        cases hf
        exact (spells_number hdigits).append (ih hrest)
      | _ => cases hf

section
variable {s : List Char} (hs : Spells s flags)
include hs

theorem Spells.gather : blank.gather s =
    ⟨all ∈ flags, ignoreCase ∈ flags, (styles flags).head?, (numbers flags).flatten⟩ := by
  have hall : 'g' ∈ s ↔ all ∈ flags := by
    rw [← List.count_pos_iff, ← List.count_pos_iff, hs.count_all]
  simp [SubstituteFlags.Partial.gather, blank, hall, hs.mem_ignoreCase, hs.styles_eq, hs.digits_eq]

theorem Spells.fits : blank.Fits s ↔ flags.count all ≤ 1 ∧ (styles flags).length ≤ 1 := by
  rw [SubstituteFlags.Partial.fits_iff, hs.count_all, hs.styles_eq]
  simpa [blank] using fun _ _ => hs.isFlag

/-- Flags that may stand together are read as what they ask for. -/
theorem Spells.read (h : Documented flags) : read? s = some (meaning flags) := by
  obtain ⟨hdigits, hnumber, hoccurrence, hprint⟩ := h
  rw [SubstituteFlags.read?_eq_some, hs.fits, hs.gather]
  refine ⟨⟨by omega, hprint⟩, ?_⟩
  unfold SubstituteFlags.Partial.finish? meaning
  match hnumbers : numbers flags with
  | [] => simp
  | [digits] =>
    rw [hnumbers] at hdigits hnumber hoccurrence
    obtain ⟨hpos, hle⟩ := hnumber digits List.mem_cons_self
    have hne : digits ≠ [] := by
      rintro rfl
      exact absurd hpos (by decide)
    have hall : all ∉ flags := by
      rw [← List.count_eq_zero]
      simpa using hoccurrence
    obtain ⟨n, hn⟩ : ∃ n, Number.ofDigits digits = n + 1 := ⟨_, (Nat.sub_add_cancel hpos).symm⟩
    simp [hall, hne, Number.ofDigits?, hn ▸ hle, hn]
  | _ :: _ :: _ =>
    rw [hnumbers] at hoccurrence
    simp at hoccurrence
    omega

/-- Flags with no more than one number may stand together if they are read. -/
theorem Spells.documented {asked : SubstituteFlags} (hread : read? s = some asked)
    (hnumbers : numbers flags = [] ∨ ∃ digits, numbers flags = [digits] ∧ digits ≠ [] ∧
      ∀ c ∈ digits, c.isDigit = true) : Documented flags := by
  rw [SubstituteFlags.read?_eq_some, hs.fits, hs.gather] at hread
  obtain ⟨⟨hall, hprint⟩, hfinish⟩ := hread
  rcases hnumbers with hnone | ⟨digits, hone, hne, hdigits⟩
  · exact ⟨by simp [hnone], by simp [hnone], by simpa [hnone] using hall, hprint⟩
  · unfold SubstituteFlags.Partial.finish? at hfinish
    rw [hone] at hfinish
    by_cases hmem : all ∈ flags
    · simp [hne, hmem] at hfinish
    · have hvalue : 1 ≤ Number.ofDigits digits ∧ Number.ofDigits digits ≤ Number.maxCount := by
        by_cases hle : Number.ofDigits digits ≤ Number.maxCount
        · refine ⟨Nat.pos_of_ne_zero fun hzero => ?_, hle⟩
          simp [hne, hmem, Number.ofDigits?, hzero] at hfinish
        · simp [hne, hmem, Number.ofDigits?, hle] at hfinish
      exact ⟨by simpa [hone] using hdigits, by simpa [hone] using hvalue,
        by simp [hone, List.count_eq_zero.mpr hmem], hprint⟩

end

theorem exists_letter {c : Char} (hflag : SubstituteFlags.isFlag c = true)
    (hdigit : c.isDigit = false) : ∃ f : SubstituteFlag, f.text = [c] ∧ digits? f = none := by
  rcases SubstituteFlags.isFlag_cases hflag with rfl | rfl | ⟨hc, -⟩ | ⟨style, rfl⟩
  · exact ⟨all, rfl, rfl⟩
  · exact ⟨ignoreCase, rfl, rfl⟩
  · rw [hc] at hdigit
    cases hdigit
  · exact ⟨print style, rfl, rfl⟩

/-- Letters are flags one by one. -/
theorem exists_letters {s : List Char} (hflag : ∀ c ∈ s, SubstituteFlags.isFlag c = true)
    (hdigit : ∀ c ∈ s, c.isDigit = false) : ∃ flags, spell flags = s ∧ numbers flags = [] := by
  induction s with
  | nil => exact ⟨[], rfl, rfl⟩
  | cons c s ih =>
    obtain ⟨f, htext, hnone⟩ :=
      exists_letter (hflag c List.mem_cons_self) (hdigit c List.mem_cons_self)
    obtain ⟨flags, rfl, hnumbers⟩ := ih (fun d hd => hflag d (List.mem_cons_of_mem c hd))
      fun d hd => hdigit d (List.mem_cons_of_mem c hd)
    refine ⟨f :: flags, by rw [spell_cons, htext]; rfl, ?_⟩
    unfold numbers
    rwa [List.filterMap_cons_none hnone]

/-- The digits of a text stand together: behind the first run of them there are no more. -/
def Together (s : List Char) : Prop :=
  ∀ c ∈ (s.dropWhile fun c => !c.isDigit).dropWhile Char.isDigit, c.isDigit = false

instance (s : List Char) : Decidable (Together s) := List.decidableBAll _ _

theorem together_parts {front digits behind : List Char} (hfront : ∀ c ∈ front, c.isDigit = false)
    (hdigits : ∀ c ∈ digits, c.isDigit = true) (hbehind : ∀ c ∈ behind, c.isDigit = false) :
    Together (front ++ digits ++ behind) := by
  have hnot : ∀ c ∈ front, (!c.isDigit) = true := fun c hc => by rw [hfront c hc, Bool.not_false]
  unfold Together
  rw [List.append_assoc]
  cases digits with
  | nil =>
    have hall : ∀ c ∈ front ++ behind, (!c.isDigit) = true := List.forall_mem_append.mpr
      ⟨hnot, fun c hc => by rw [hbehind c hc, Bool.not_false]⟩
    rw [List.nil_append, List.dropWhile_eq_nil_iff.mpr hall]
    simp
  | cons d digits =>
    have hstart : Stops (fun c => !c.isDigit) (d :: digits ++ behind) :=
      stops_cons.mpr (by rw [hdigits d List.mem_cons_self, Bool.not_true])
    have hend : Stops Char.isDigit behind := fun c hc => hbehind c (List.mem_of_head? hc)
    rw [dropWhile_front hnot hstart, dropWhile_front hdigits hend]
    exact hbehind

theorem Together.parts {s : List Char} (h : Together s) : ∃ front digits behind,
    s = front ++ digits ++ behind ∧ (∀ c ∈ front, c.isDigit = false) ∧
      (∀ c ∈ digits, c.isDigit = true) ∧ ∀ c ∈ behind, c.isDigit = false := by
  refine ⟨s.takeWhile fun c => !c.isDigit, (s.dropWhile fun c => !c.isDigit).takeWhile Char.isDigit,
    _, ?_, fun c hc => ?_, fun c hc => List.mem_takeWhile_imp hc, h⟩
  · rw [List.append_assoc, List.takeWhile_append_dropWhile, List.takeWhile_append_dropWhile]
  · simpa using List.mem_takeWhile_imp hc

theorem not_isDigit_of_numbers (h : numbers flags = []) : ∀ c ∈ spell flags, c.isDigit = false := by
  have hspells : Spells (spell flags) flags := spells_spell (by simp [h])
  have hnone := hspells.digits_eq
  rw [h, SubstituteFlags.digits] at hnone
  simpa using List.filter_eq_nil_iff.mp hnone

theorem Documented.together (h : Documented flags) : Together (spell flags) := by
  cases hnumbers : numbers flags with
  | nil =>
    have hnone := not_isDigit_of_numbers hnumbers
    rw [← List.append_nil (spell flags), ← List.append_nil (spell flags)]
    exact together_parts hnone (by simp) (by simp)
  | cons digits more =>
    have hmem : digits ∈ numbers flags := by simp [hnumbers]
    obtain ⟨f, hf, hdigits⟩ := List.mem_filterMap.mp hmem
    obtain ⟨front, behind, rfl⟩ := List.append_of_mem hf
    have hsplit : numbers (front ++ f :: behind) = numbers front ++ digits :: numbers behind := by
      unfold numbers
      rw [List.filterMap_append, List.filterMap_cons_some hdigits]
    have hlength := h.occurrence
    rw [hsplit, List.length_append, List.length_cons] at hlength
    have hfront : numbers front = [] := List.length_eq_zero_iff.mp (by omega)
    have hbehind : numbers behind = [] := List.length_eq_zero_iff.mp (by omega)
    have hspell : spell (front ++ f :: behind) = spell front ++ digits ++ spell behind := by
      cases f with
      | number _ =>
        cases hdigits
        simp [spell, text]
      | _ => cases hdigits
    rw [hspell]
    exact together_parts (not_isDigit_of_numbers hfront) (h.digits digits hmem)
      (not_isDigit_of_numbers hbehind)

theorem Together.documented {s : List Char} (h : Together s) {asked : SubstituteFlags}
    (hread : read? s = some asked) : ∃ flags, Documented flags ∧ s = spell flags := by
  obtain ⟨front, digits, behind, rfl, hfront, hdigits, hbehind⟩ := h.parts
  obtain ⟨⟨hflag, -, -⟩, -⟩ := SubstituteFlags.read?_eq_some.mp hread
  obtain ⟨hhead, hlast⟩ := List.forall_mem_append.mp hflag
  obtain ⟨flags, rfl, hnone⟩ := exists_letters (List.forall_mem_append.mp hhead).1 hfront
  obtain ⟨flags', rfl, hnone'⟩ := exists_letters hlast hbehind
  have hspells (mid : List SubstituteFlag) (hmid : Spells digits mid)
      (hnumbers : numbers mid = [] ∨ ∃ digits, numbers mid = [digits] ∧ digits ≠ [] ∧
        ∀ c ∈ digits, c.isDigit = true) : Documented (flags ++ mid ++ flags') := by
    have hleft : Spells (spell flags) flags := spells_spell (by simp [hnone])
    have hright : Spells (spell flags') flags' := spells_spell (by simp [hnone'])
    have hmiddle : numbers (flags ++ mid ++ flags') = numbers mid := by
      unfold numbers at *
      rw [List.filterMap_append, List.filterMap_append, hnone, hnone', List.nil_append,
        List.append_nil]
    exact ((hleft.append hmid).append hright).documented hread (by rwa [hmiddle])
  cases digits with
  | nil =>
    rw [List.append_nil] at *
    exact ⟨flags ++ flags', by simpa using hspells [] spells_nil (.inl rfl), by simp [spell]⟩
  | cons d digits =>
    exact ⟨flags ++ [number (d :: digits)] ++ flags', hspells _ (spells_number hdigits)
      (.inr ⟨_, rfl, List.cons_ne_nil _ _, hdigits⟩), by simp [spell, text]⟩

theorem Documented.perm {flags' : List SubstituteFlag} (h : Documented flags)
    (hperm : flags.Perm flags') : Documented flags' := by
  have hnumbers : (numbers flags).Perm (numbers flags') := hperm.filterMap _
  refine ⟨fun digits hd => h.digits digits (hnumbers.mem_iff.mpr hd),
    fun digits hd => h.number digits (hnumbers.mem_iff.mpr hd), ?_, ?_⟩
  · rw [← hperm.count_eq, ← hnumbers.length_eq]
    exact h.occurrence
  · have hstyles : (styles flags).length = (styles flags').length :=
      (hperm.filterMap style?).length_eq
    rw [← hstyles]
    exact h.print

/-- Flags in another order ask for the same. -/
theorem read_perm {flags' : List SubstituteFlag} (h : Documented flags) (hperm : flags.Perm flags') :
    read? (spell flags) = read? (spell flags') := by
  have hnumbers : numbers flags = numbers flags' :=
    SubstituteFlags.perm_eq_of_length_le_one (hperm.filterMap _)
      (Nat.le_trans (Nat.le_add_left _ _) h.occurrence)
  refine SubstituteFlags.read?_perm (hperm.flatMap_right _) ?_
  rw [(spells_spell h.digits).digits_eq, (spells_spell (h.perm hperm).digits).digits_eq, hnumbers]

end

end SubstituteFlag

namespace SubstituteFlags

open SubstituteFlag (Documented Together spell meaning)

/-- The texts that are read as flags, and whose digits stand together, are the spellings of flags that
may stand together, with white space around them. They are read as what these flags ask for, in whatever
order. Any text is read as one that has the same letters and the same digits in their order. -/
theorem reads_documented_flags (text : List Char) :
    ((parse? text).isSome = true ∧ Together (Unicode.trim text) ↔
      ∃ flags, Documented flags ∧ Unicode.trim text = spell flags) ∧
    (∀ flags, Documented flags → Unicode.trim text = spell flags →
      parse? text = some (meaning flags)) ∧
    (∀ text' flags flags', Documented flags → flags.Perm flags' →
      Unicode.trim text = spell flags → Unicode.trim text' = spell flags' →
      parse? text = parse? text') ∧
    ∀ text', (Unicode.trim text).Perm (Unicode.trim text') →
      digits (Unicode.trim text) = digits (Unicode.trim text') → parse? text = parse? text' := by
  have hmeaning (flags : List SubstituteFlag) (h : Documented flags)
      (htext : Unicode.trim text = spell flags) : parse? text = some (meaning flags) := by
    rw [parse?_eq, htext]
    exact (SubstituteFlag.spells_spell h.digits).read h
  refine ⟨⟨?_, ?_⟩, hmeaning, fun text' flags flags' h hperm htext htext' => ?_,
    fun text' => read?_perm⟩
  · rintro ⟨haccepted, htogether⟩
    obtain ⟨asked, hread⟩ := Option.isSome_iff_exists.mp haccepted
    exact htogether.documented hread
  · rintro ⟨flags, h, htext⟩
    rw [hmeaning flags h htext, htext]
    exact ⟨rfl, h.together⟩
  · rw [parse?_eq, parse?_eq, htext, htext']
    exact SubstituteFlag.read_perm h hperm

/-- A number in the middle of three flags. -/
theorem reads_documented_flags_number :
    Documented [.number ['3'], .print .plain, .ignoreCase] ∧
    (parse? [' ', '3', 'p', 'i']).isSome = true ∧
    parse? [' ', '3', 'p', 'i'] = some ⟨some (.nth 3), true, some .plain⟩ ∧
    parse? [' ', '3', 'p', 'i'] = parse? ['i', '3', 'p'] ∧
    parse? ['3', 'p', 'i'] = parse? ['i', 'p', '3'] := by
  have hdocumented : Documented [.number ['3'], .print .plain, .ignoreCase] :=
    ⟨List.forall_mem_singleton.mpr (List.forall_mem_singleton.mpr rfl),
      List.forall_mem_singleton.mpr (by decide), by decide, by decide⟩
  have hperm : [SubstituteFlag.number ['3'], .print .plain, .ignoreCase].Perm
      [.ignoreCase, .number ['3'], .print .plain] := by decide
  have htrim : Unicode.trim [' ', '3', 'p', 'i'] = ['3', 'p', 'i'] := by decide +kernel
  have htrim' : Unicode.trim ['i', '3', 'p'] = ['i', '3', 'p'] := by decide +kernel
  obtain ⟨haccepts, hmeans, horder, -⟩ := reads_documented_flags [' ', '3', 'p', 'i']
  obtain ⟨-, -, -, hmoved⟩ := reads_documented_flags ['3', 'p', 'i']
  exact ⟨hdocumented, (haccepts.mpr ⟨_, hdocumented, htrim⟩).1, hmeans _ hdocumented htrim,
    horder _ _ _ hdocumented hperm htrim htrim', hmoved _ (by decide +kernel) (by decide +kernel)⟩

/-- Two digits with a letter between them are a number, though no flags are spelled like this, and with
the digits changed about another. -/
theorem accepts_digits_apart :
    parse? ['1', 'i', '2'] = some ⟨some (.nth 12), true, none⟩ ∧
    (¬ ∃ flags, Documented flags ∧ Unicode.trim ['1', 'i', '2'] = spell flags) ∧
    parse? ['2', 'i', '1'] = some ⟨some (.nth 21), true, none⟩ := by
  have htrim : Unicode.trim ['1', 'i', '2'] = ['1', 'i', '2'] := by decide +kernel
  refine ⟨by decide +kernel, ?_, by decide +kernel⟩
  rintro ⟨flags, h, htext⟩
  have htogether := h.together
  rw [← htext, htrim] at htogether
  exact absurd htogether (by decide)

end SubstituteFlags

end LineEditor
