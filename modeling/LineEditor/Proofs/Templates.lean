import LineEditor.Proofs.Escapes
import LineEditor.Proofs.Substitution
import Mathlib.Data.List.TakeWhile

/-!
# Templates

A template is read part by part, and where a part ends the rest is read as if it stood alone. So
templates are put together by writing one behind the other, as long as the first does not end inside
an escape, and any text can be written as a template, in octal or with two marks escaped.
-/

namespace LineEditor

namespace Template

/-- The templates that change the case of what was matched. -/
def directives : List Bytes := [[108, 99], [117, 99], [109, 99]]

/-- A byte as a backslash and three octal digits. -/
def octalEscape (b : UInt8) : Bytes := [92, 48 + b / 64, 48 + b / 8 % 8, 48 + b % 8]

def inOctal (text : Bytes) : Bytes := text.flatMap octalEscape

/-- A backslash goes before each backslash and each dollar sign. -/
def quoted (text : Bytes) : Bytes :=
  text.flatMap fun b => if b = 92 || b = 36 then [92, b] else [b]

/-- An escape that more bytes could belong to: a backslash or a dollar sign alone, or one or two octal
digits behind a backslash. -/
inductive OpenEnd : Bytes → Prop
  | backslash : OpenEnd [92]
  | dollar : OpenEnd [36]
  | octal {digits : Bytes} : digits ≠ [] → digits.length < 3 → (∀ d ∈ digits, isOctal d = true) →
    OpenEnd (92 :: digits)

/-- The template ends in such an escape, whose first byte no backslash takes along. -/
def Unfinished (t : Bytes) : Prop := ∃ lead tail, t = lead ++ tail ∧ Paired 92 lead ∧ OpenEnd tail

/-! ## Parts -/

section
variable {b c d e : UInt8} {rest t u : Bytes}

theorem isOctal_ne (h : isOctal b = true) : b ≠ 92 := by
  intro heq
  subst heq
  exact absurd h (by decide)

theorem isDigit_ne (h : Bytes.isDigit b = true) : b ≠ 92 := by
  intro heq
  subst heq
  exact absurd h (by decide)

/-! ## Templates behind each other -/

/-- A whole part at the front is the same whatever comes behind the template. -/
structure Closes (b : UInt8) (rest : Bytes) : Prop where
  append : ∀ u, firstPart b (rest ++ u) = firstPart b rest
  fits : (firstPart b rest).2 ≤ rest.length
  paired : Paired 92 (b :: rest.take (firstPart b rest).2)

theorem Unfinished.behind {lead : Bytes} (h : Unfinished t) (hlead : Paired 92 lead) :
    Unfinished (lead ++ t) := by
  obtain ⟨lead', tail, rfl, hpaired, hopen⟩ := h
  exact ⟨lead ++ lead', tail, (List.append_assoc _ _ _).symm, hlead.append hpaired, hopen⟩

theorem OpenEnd.unfinished (h : OpenEnd t) : Unfinished t := ⟨[], t, rfl, .nil, h⟩

theorem closes_plain (hdollar : b ≠ 36) (hback : b ≠ 92) : Closes b rest where
  append u := by rw [firstPart_plain hdollar hback, firstPart_plain hdollar hback]
  fits := by simp [firstPart_plain hdollar hback]
  paired := by
    rw [firstPart_plain hdollar hback]
    exact .single hback .nil

theorem closes_dollar (h : ¬Unfinished (36 :: rest)) : Closes 36 rest := by
  cases rest with
  | nil => exact absurd OpenEnd.dollar.unfinished h
  | cons d rest =>
    by_cases hd : Bytes.isDigit d = true
    · have hpart := firstPart_group hd
      refine ⟨fun u => by rw [List.cons_append, hpart, hpart], by simp [hpart], ?_⟩
      rw [hpart]
      exact .single (by decide) (.single (isDigit_ne hd) .nil)
    · rw [Bool.not_eq_true] at hd
      have hpart := firstPart_dollar hd
      refine ⟨fun u => by rw [List.cons_append, hpart, hpart], by simp [hpart], ?_⟩
      rw [hpart]
      exact .single (by decide) .nil

theorem paired_octal {digits : Bytes} (h : ∀ d ∈ digits, isOctal d = true) : Paired 92 digits := by
  induction digits with
  | nil => exact .nil
  | cons d digits ih =>
    obtain ⟨hd, hdigits⟩ := List.forall_mem_cons.mp h
    exact .single (isOctal_ne hd) (ih hdigits)

/-- The digits of an escape end at the third, or before a byte that is none. -/
theorem digits_append (hc : isOctal c = true) (h : ¬Unfinished (92 :: c :: rest)) (u : Bytes) :
    ((rest ++ u).take 2).takeWhile isOctal = (rest.take 2).takeWhile isOctal := by
  cases rest with
  | nil =>
    have hend : OpenEnd [92, c] := .octal (by simp) (by simp) (by simpa using hc)
    exact absurd hend.unfinished h
  | cons d rest =>
    cases rest with
    | cons e rest => simp
    | nil =>
      by_cases hd : isOctal d = true
      · have hend : OpenEnd [92, c, d] := .octal (by simp) (by simp) (by simp [hc, hd])
        exact absurd hend.unfinished h
      · simp [hd]

theorem closes_backslash (h : ¬Unfinished (92 :: rest)) : Closes 92 rest := by
  cases rest with
  | nil => exact absurd OpenEnd.backslash.unfinished h
  | cons c rest =>
    by_cases hc : isOctal c = true
    · have hpart := firstPart_octal hc
      have hrun : ((rest.take 2).takeWhile isOctal) <+: rest :=
        (List.takeWhile_prefix _).trans (List.take_prefix 2 rest)
      refine ⟨fun u => ?_, ?_, ?_⟩
      · rw [List.cons_append, hpart, hpart, digits_append hc h]
      · rw [hpart]
        exact Nat.succ_le_succ hrun.length_le
      · rw [hpart, List.take_succ_cons, ← List.prefix_iff_eq_take.mp hrun]
        exact .pair (paired_octal fun d hd => List.mem_takeWhile_imp hd)
    · rw [Bool.not_eq_true] at hc
      have hpart := firstPart_escaped hc
      refine ⟨fun u => by rw [List.cons_append, hpart, hpart], by simp [hpart], ?_⟩
      rw [hpart]
      exact .pair .nil

theorem closes_of_finished (h : ¬Unfinished (b :: rest)) : Closes b rest := by
  by_cases hdollar : b = 36
  · subst hdollar
    exact closes_dollar h
  · by_cases hback : b = 92
    · subst hback
      exact closes_backslash h
    · exact closes_plain hdollar hback

/-- On the length of the first template, which each part makes shorter. -/
theorem parts_append (h : ¬Unfinished t) (u : Bytes) : parts (t ++ u) = parts t ++ parts u := by
  induction hn : t.length using Nat.strongRecOn generalizing t with
  | ind n ih =>
    cases t with
    | nil => rfl
    | cons b rest =>
      obtain ⟨happend, hfits, hpaired⟩ := closes_of_finished h
      have hrest : ¬Unfinished (rest.drop (firstPart b rest).2) := by
        intro hopen
        have hall := hopen.behind hpaired
        rw [List.cons_append, List.take_append_drop] at hall
        exact h hall
      have hlt : (rest.drop (firstPart b rest).2).length < n := by
        rw [← hn, List.length_drop, List.length_cons]
        omega
      rw [List.cons_append, parts_cons, happend, List.drop_append_of_le_length hfits,
        ih _ hlt hrest rfl, parts_cons b rest]
      rfl

theorem expand_append (h : ¬Unfinished t) (u line : Bytes) (m : Regex.Match) :
    expand (t ++ u) line m = do return (← expand t line m) ++ (← expand u line m) := by
  rw [expand_eq, expand_eq, expand_eq, parts_append h, List.mapM_append]
  simp only [bind_assoc, pure_bind, List.flatten_append]

/-! ## Texts written as templates -/

theorem expand_literals {text : Bytes} (h : parts t = text.map .literal) (line : Bytes)
    (m : Regex.Match) : expand t line m = .ok text := by
  have hparts : (text.map Part.literal).mapM (Part.expand line m) = .ok (text.map fun b => [b]) := by
    clear h
    induction text with
    | nil => rfl
    | cons b text ih =>
      rw [List.map_cons, List.mapM_cons, ih]
      rfl
  rw [expand_eq, h, hparts]
  exact congrArg Except.ok (List.flatMap_singleton' text)

theorem octal_digits (b : UInt8) : octal [48 + b / 64, 48 + b / 8 % 8, 48 + b % 8] = b := by
  have hlt := b.toNat_lt
  simp only [octal, List.foldl_cons, List.foldl_nil]
  have hhigh : (48 + b / 64).toNat - 48 = b.toNat / 64 := by
    rw [UInt8.toNat_add, UInt8.toNat_div]
    simp
    omega
  have hmiddle : (48 + b / 8 % 8).toNat - 48 = b.toNat / 8 % 8 := by
    rw [UInt8.toNat_add, UInt8.toNat_mod, UInt8.toNat_div]
    simp
    omega
  have hlow : (48 + b % 8).toNat - 48 = b.toNat % 8 := by
    rw [UInt8.toNat_add, UInt8.toNat_mod]
    simp
    omega
  rw [hhigh, hmiddle, hlow]
  have hsum : 8 * (8 * (8 * 0 + b.toNat / 64) + b.toNat / 8 % 8) + b.toNat % 8 = b.toNat := by omega
  rw [hsum, Nat.toUInt8_eq, UInt8.ofNat_toNat]

theorem isOctal_digit (h : b < 8) : isOctal (48 + b) = true := by
  have hlt : b.toNat < 8 := UInt8.lt_iff_toNat_lt.mp h
  simp [isOctal, UInt8.le_iff_toNat_le, UInt8.toNat_add]
  omega

theorem parts_octal (b : UInt8) (rest : Bytes) :
    parts (octalEscape b ++ rest) = .literal b :: parts rest := by
  have hhigh : isOctal (48 + b / 64) = true := by
    refine isOctal_digit (UInt8.lt_iff_toNat_lt.mpr ?_)
    have hlt := b.toNat_lt
    simp [UInt8.toNat_div]
    omega
  have hlow (n : UInt8) : isOctal (48 + n % 8) = true := by
    refine isOctal_digit (UInt8.lt_iff_toNat_lt.mpr ?_)
    simp [UInt8.toNat_mod]
    omega
  have hdigits : ((48 + b / 8 % 8) :: (48 + b % 8) :: rest).take 2 = [48 + b / 8 % 8, 48 + b % 8] := by
    simp
  simp only [octalEscape, List.cons_append, List.nil_append]
  rw [parts_cons, firstPart_octal hhigh, hdigits, List.takeWhile_cons_of_pos (hlow _),
    List.takeWhile_cons_of_pos (hlow _), List.takeWhile_nil, octal_digits]
  rfl

theorem parts_inOctal (text : Bytes) : parts (inOctal text) = text.map .literal := by
  induction text with
  | nil => rfl
  | cons b text ih => rw [inOctal, List.flatMap_cons, parts_octal, ← inOctal, ih, List.map_cons]

theorem parts_quoted (text : Bytes) : parts (quoted text) = text.map .literal := by
  induction text with
  | nil => rfl
  | cons b text ih =>
    rw [quoted, List.flatMap_cons, ← quoted, List.map_cons, ← ih]
    by_cases hmark : b = 92 ∨ b = 36
    · have hescaped : isOctal b = false ∧ escaped b = b := by
        cases hmark with
        | inl hback => subst hback; decide
        | inr hdollar => subst hdollar; decide
      rw [if_pos (by simpa using hmark), List.cons_append, parts_cons, List.singleton_append,
        firstPart_escaped hescaped.1, hescaped.2]
      rfl
    · obtain ⟨hback, hdollar⟩ := not_or.mp hmark
      rw [if_neg (by simpa using hmark), List.singleton_append, parts_cons,
        firstPart_plain hdollar hback]
      rfl

/-! ## Directives -/

theorem replacement_of_not_mem (h : t ∉ directives) (line : Bytes) (m : Regex.Match) :
    replacement t line m = expand t line m := by
  have hnone : caseShift? t = none := by
    simp only [directives, List.mem_cons, List.not_mem_nil, or_false, not_or] at h
    simp [caseShift?, h]
  rw [replacement, hnone]

theorem inOctal_not_mem (text : Bytes) : inOctal text ∉ directives := by
  cases text with
  | nil => decide
  | cons b text => simp [inOctal, octalEscape, directives]

/-- No directive has a backslash, so where one comes out nothing was escaped. -/
theorem quoted_not_mem {text : Bytes} (h : text ∉ directives) : quoted text ∉ directives := by
  intro hmem
  have hmarks : ∀ d ∈ directives, (92 : UInt8) ∉ d := by decide
  have hplain : ∀ b ∈ text, (b = 92 || b = 36) = false := by
    intro b hb
    cases hmark : (b = 92 || b = 36 : Bool) with
    | false => rfl
    | true =>
      have hback : (92 : UInt8) ∈ quoted text := by
        refine List.mem_flatMap.mpr ⟨b, hb, ?_⟩
        rw [hmark, if_pos rfl]
        exact List.mem_cons_self
      exact absurd hback (hmarks _ hmem)
  have hsame : quoted text = text := by
    have hsingle : text.flatMap (fun b => if b = 92 || b = 36 then [92, b] else [b]) =
        text.flatMap fun b => [b] := List.flatMap_congr fun b hb => by rw [hplain b hb]; rfl
    rw [quoted, hsingle, List.flatMap_singleton']
  rw [hsame] at hmem
  exact h hmem

/-- Every text is what a template written for it stands for, whatever was matched, and if the first of
two templates is finished, both together stand for what each of them stands for. -/
theorem expands_as_written :
    (∀ text line m, expand (inOctal text) line m = .ok text ∧
      replacement (inOctal text) line m = .ok text ∧ expand (quoted text) line m = .ok text ∧
      (text ∉ directives → replacement (quoted text) line m = .ok text)) ∧
    ∀ source ignoreCase binary matcher line start m,
      Matcher.compile source ignoreCase binary = .ok matcher → matcher.search line start = some m →
      ∀ t u, ¬Unfinished t → ∃ a b, expand t line m = .ok a ∧ expand u line m = .ok b ∧
        expand (t ++ u) line m = .ok (a ++ b) ∧
        (t ++ u ∉ directives → replacement (t ++ u) line m = .ok (a ++ b)) := by
  constructor
  · intro text line m
    have hoctal := expand_literals (parts_inOctal text) line m
    have hquoted := expand_literals (parts_quoted text) line m
    refine ⟨hoctal, ?_, hquoted, fun hplain => ?_⟩
    · rw [replacement_of_not_mem (inOctal_not_mem text), hoctal]
    · rw [replacement_of_not_mem (quoted_not_mem hplain), hquoted]
  · intro source ignoreCase binary matcher line start m hcompile hsearch t u hfinished
    have hwithin := Matcher.compile_bounded hcompile line start m hsearch
    obtain ⟨a, ha, -⟩ := expand_succeeds hwithin t
    obtain ⟨b, hb, -⟩ := expand_succeeds hwithin u
    have hboth : expand (t ++ u) line m = .ok (a ++ b) := by
      rw [expand_append hfinished, ha, hb]
      rfl
    refine ⟨a, b, ha, hb, hboth, fun hplain => ?_⟩
    rw [replacement_of_not_mem hplain, hboth]

/-- A letter in octal is finished, and the digit behind it is not one of its own. -/
theorem expands_as_written_letter :
    let matcher : Matcher := ⟨(Regex.Code.ofNode (.bytes [97])).search⟩
    let m : Regex.Match := ⟨1, 2, []⟩
    Matcher.compile ['a'] false false = .ok matcher ∧ matcher.search [120, 97] 0 = some m ∧
      [36, 49] ∉ directives ∧ replacement (quoted [36, 49]) [120, 97] m = .ok [36, 49] ∧
      ¬Unfinished [92, 49, 48, 49] ∧
      expand ([92, 49, 48, 49] ++ [49, 36, 48]) [120, 97] m = .ok ([65] ++ [49, 97]) := by
  intro matcher m
  have hcompile : Matcher.compile ['a'] false false = .ok matcher := rfl
  have hsearch : matcher.search [120, 97] 0 = some m := by decide +kernel
  have hplain : ([36, 49] : Bytes) ∉ directives := by decide
  have hfinished : ¬Unfinished [92, 49, 48, 49] := by
    intro hopen
    obtain ⟨lead, tail, heq, -, htail⟩ := hopen
    have hlast := congrArg List.getLast? heq
    cases htail with
    | backslash => simp at hlast
    | dollar => simp at hlast
    | @octal digits hne hshort hdigits =>
      -- the only backslash has three digits behind it
      cases lead with
      | nil =>
        obtain ⟨-, rfl⟩ := List.cons.inj heq
        exact absurd hshort (by decide)
      | cons b lead =>
        have hmem : (92 : UInt8) ∈ ([49, 48, 49] : Bytes) := by
          rw [(List.cons.inj heq).2]
          exact List.mem_append_right lead List.mem_cons_self
        exact absurd hmem (by decide)
  obtain ⟨hwritten, hjoined⟩ := expands_as_written
  obtain ⟨a, b, ha, hb, hboth, -⟩ :=
    hjoined _ _ _ matcher [120, 97] 0 m hcompile hsearch _ [49, 36, 48] hfinished
  have ha' : expand [92, 49, 48, 49] [120, 97] m = .ok [65] := by decide +kernel
  have hb' : expand [49, 36, 48] [120, 97] m = .ok [49, 97] := by decide +kernel
  cases ha.symm.trans ha'
  cases hb.symm.trans hb'
  exact ⟨hcompile, hsearch, hplain, (hwritten [36, 49] [120, 97] m).2.2.2 hplain, hfinished, hboth⟩

end

end Template

end LineEditor
