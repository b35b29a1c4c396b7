import LineEditor.Proofs.Categories
import LineEditor.Proofs.Delimiters

/-!
# Escapes

A mark takes along what follows it, whatever that is, so a text is read from the left, in single
elements and in pairs. A text between delimiters ends at the first delimiter that no backslash takes
along, and what is written with its delimiters escaped is read back.
-/

namespace LineEditor

/-- The text can be read to its end, in pairs of a mark and what it takes along and in elements that
are no marks. -/
inductive Paired (mark : α) : List α → Prop
  | nil : Paired mark []
  | single {a : α} {s : List α} : a ≠ mark → Paired mark s → Paired mark (a :: s)
  | pair {a : α} {s : List α} : Paired mark s → Paired mark (mark :: a :: s)

namespace Paired

variable {mark a : α} {s t : List α}

theorem append (hs : Paired mark s) (ht : Paired mark t) : Paired mark (s ++ t) := by
  induction hs with
  | nil => exact ht
  | single hne _ ih => exact .single hne ih
  | pair _ ih => exact .pair ih

theorem single_iff (hne : a ≠ mark) : Paired mark (a :: s) ↔ Paired mark s := by
  constructor
  · intro h
    cases h with
    | single _ hs => exact hs
    | pair _ => exact absurd rfl hne
  · exact .single hne

end Paired

namespace Delimited

/-- A delimiter in the text that no backslash takes along: all that stands before it is read without
it. -/
structure Cut (delim : Char) (s before rest : List Char) : Prop where
  eq : s = before ++ delim :: rest
  paired : Paired '\\' before

structure FirstCut (delim : Char) (s before rest : List Char) : Prop
    extends Cut delim s before rest where
  first : ∀ before' rest', Cut delim s before' rest' → before.length ≤ before'.length

/-- A closed text goes up to the first cut; one that is not closed has no cut. -/
structure CutsFirst (delim : Char) (s : List Char) (d : Delimited) : Prop where
  closed : d.closed = true → ∃ before, FirstCut delim s before d.rest
  unclosed : d.closed = false → d.rest = [] ∧ ∀ before rest, ¬Cut delim s before rest

section
variable {delim c : Char} {s before rest : List Char}

theorem not_cut_nil : ¬Cut delim [] before rest := by
  intro h
  have heq := h.eq
  simp at heq

theorem cut_delim : Cut delim (delim :: s) [] s := ⟨rfl, .nil⟩

theorem cut_single (hdelim : c ≠ delim) (hback : c ≠ '\\') : Cut delim (c :: s) before rest ↔
    ∃ before', before = c :: before' ∧ Cut delim s before' rest := by
  constructor
  · intro h
    obtain ⟨heq, hpaired⟩ := h
    cases before with
    | nil => exact absurd (List.cons.inj heq).1 hdelim
    | cons b before =>
      obtain ⟨rfl, rfl⟩ := List.cons.inj heq
      exact ⟨before, rfl, rfl, (Paired.single_iff hback).mp hpaired⟩
  · intro h
    obtain ⟨before', rfl, heq, hpaired⟩ := h
    exact ⟨congrArg (c :: ·) heq, .single hback hpaired⟩

/-- What a backslash takes along is no cut, even if it is a delimiter. -/
theorem cut_pair (hne : '\\' ≠ delim) : Cut delim ('\\' :: c :: s) before rest ↔
    ∃ before', before = '\\' :: c :: before' ∧ Cut delim s before' rest := by
  constructor
  · intro h
    obtain ⟨heq, hpaired⟩ := h
    cases hpaired with
    | nil => exact absurd (List.cons.inj heq).1 hne
    | single hback _ => exact absurd (List.cons.inj heq).1.symm hback
    | @pair a before hpaired =>
      obtain ⟨-, htail⟩ := List.cons.inj heq
      obtain ⟨rfl, htext⟩ := List.cons.inj htail
      exact ⟨before, rfl, htext, hpaired⟩
  · intro h
    obtain ⟨before', rfl, heq, hpaired⟩ := h
    exact ⟨congrArg (fun s => '\\' :: c :: s) heq, .pair hpaired⟩

theorem not_cut_backslash (hne : '\\' ≠ delim) : ¬Cut delim ['\\'] before rest := by
  intro h
  obtain ⟨heq, hpaired⟩ := h
  cases hpaired with
  | nil => exact hne (List.cons.inj heq).1
  | single hback _ => exact hback (List.cons.inj heq).1.symm
  | pair _ =>
    have hnil := (List.cons.inj heq).2
    simp at hnil

/-- The cuts behind a lead are those of what follows it. -/
theorem CutsFirst.behind {d : Delimited} (h : CutsFirst delim s d) (lead : List Char)
    (hcut : ∀ before rest, Cut delim (lead ++ s) before rest ↔
      ∃ before', before = lead ++ before' ∧ Cut delim s before' rest) (cs : List Char) :
    CutsFirst delim (lead ++ s) (d.prepend cs) where
  closed hclosed := by
    obtain ⟨before, hbefore, hfirst⟩ := h.closed hclosed
    refine ⟨lead ++ before, (hcut _ _).mpr ⟨before, rfl, hbefore⟩, ?_⟩
    intro before₁ rest₁ h₁
    obtain ⟨before₂, rfl, h₂⟩ := (hcut _ _).mp h₁
    have hle := hfirst before₂ rest₁ h₂
    simp [hle]
  unclosed hopen := by
    obtain ⟨hrest, hnone⟩ := h.unclosed hopen
    refine ⟨hrest, ?_⟩
    intro before rest h₁
    obtain ⟨before₂, -, h₂⟩ := (hcut _ _).mp h₁
    exact hnone before₂ rest h₂

/-- On the cases of the scan, which are those of the reading in pairs. -/
theorem scan_cutsFirst (hne : '\\' ≠ delim) (s : List Char) : CutsFirst delim s (scan delim s) := by
  induction s using scan.induct delim with
  | case1 =>
    refine ⟨fun hclosed => ?_, fun _ => ⟨rfl, fun _ _ => not_cut_nil⟩⟩
    simp [scan] at hclosed
  | case2 s =>
    rw [scan_delim]
    refine ⟨fun _ => ⟨[], cut_delim, fun _ _ _ => Nat.zero_le _⟩, fun hopen => ?_⟩
    cases hopen
  | case3 =>
    rw [scan_backslash hne]
    refine ⟨fun hclosed => ?_, fun _ => ⟨rfl, fun _ _ => not_cut_backslash hne⟩⟩
    cases hclosed
  | case4 c s _ ih =>
    rw [scan_escaped hne]
    exact ih.behind ['\\', c] (fun _ _ => cut_pair hne) _
  | case5 c s hdelim hback ih =>
    rw [scan_plain hdelim hback]
    exact ih.behind [c] (fun _ _ => cut_single hdelim hback) _

theorem backslash_ne_of_check (h : check delim = .ok delim) : '\\' ≠ delim := by
  intro heq
  subst heq
  simp [check] at h

/-- A text is closed exactly where a delimiter stands that no backslash takes along, and goes on behind
the first of them; and a text whose delimiters were escaped is read back. -/
theorem scan_first_cut (h : check delim = .ok delim) :
    (∀ s, ((scan delim s).closed = true ↔ ∃ before rest, Cut delim s before rest) ∧
      ((scan delim s).closed = true → ∃ before, FirstCut delim s before (scan delim s).rest) ∧
      ((scan delim s).closed = false → (scan delim s).rest = [])) ∧
    ∀ body rest, IsBody delim true body →
      scan delim (escape delim body ++ delim :: rest) = ⟨body, rest, true⟩ := by
  have hne := backslash_ne_of_check h
  constructor
  · intro s
    have hcuts := scan_cutsFirst hne s
    refine ⟨⟨fun hclosed => ?_, fun hcut => ?_⟩, hcuts.closed, fun hopen => (hcuts.unclosed hopen).1⟩
    · obtain ⟨before, hfirst⟩ := hcuts.closed hclosed
      exact ⟨before, _, hfirst.toCut⟩
    · obtain ⟨before, rest, hcut⟩ := hcut
      cases hclosed : (scan delim s).closed with
      | true => rfl
      | false => exact absurd hcut ((hcuts.unclosed hclosed).2 before rest)
  · intro body rest hbody
    have hread : Read delim ⟨body, rest, true⟩ := ⟨hbody, fun hopen => by cases hopen⟩
    exact scan_text hne hread

/-- The slash behind two backslashes ends the text, the one behind a single backslash does not. -/
theorem scan_first_cut_slash :
    let written := ['a', '\\', '/', '\\', '\\', '/', 'g', '/']
    check '/' = .ok '/' ∧ IsBody '/' true ['a', '/', '\\', '\\'] ∧
      escape '/' ['a', '/', '\\', '\\'] = written.take 5 ∧
      scan '/' written = ⟨['a', '/', '\\', '\\'], ['g', '/'], true⟩ ∧
      ∃ before, FirstCut '/' written before ['g', '/'] := by
  intro written
  have hbody : IsBody '/' true ['a', '/', '\\', '\\'] :=
    .plain (by decide) (.plain (by decide) (.pair (by decide) .nil))
  have hescape : escape '/' ['a', '/', '\\', '\\'] = written.take 5 := by simp [escape, written]
  obtain ⟨hcuts, hback⟩ := scan_first_cut check_slash
  have hscan := hback _ ['g', '/'] hbody
  rw [hescape] at hscan
  have hfirst := (hcuts written).2.1 (congrArg Delimited.closed hscan)
  rw [show (scan '/' written).rest = ['g', '/'] from congrArg Delimited.rest hscan] at hfirst
  exact ⟨check_slash, hbody, hescape, hscan, hfirst⟩

end

end Delimited

end LineEditor
