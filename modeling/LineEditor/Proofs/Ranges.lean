import LineEditor.Proofs.Addresses

/-!
# The grammar of ranges

A range is one address or two with a separator between them, of which the first or the second may be
missing; some signs are short for a range. The parser reads the sentences of this grammar and nothing
else, and a range that can be written is read as what it was.
-/

namespace LineEditor

namespace RangeExpr

def isSeparator (c : Char) : Bool := c = ',' || c = ';'

/-- The signs that stand for a range by themselves. -/
def isShort (c : Char) : Bool := isSeparator c || c = '%'

/-- How a range is written, and what goes on with it. -/
inductive Sentence : List Char → RangeExpr → (Char → Bool) → Prop
  | default : Sentence [] .default fun c => Address.starts c || isShort c
  | percent : Sentence ['%'] .whole fun _ => false
  | comma : Sentence [','] .whole Address.starts
  | semicolon : Sentence [';'] .dotToEnd Address.starts
  | one {text base offsets more} : Address.Sentence text base offsets more →
      Sentence text (.one (.ofOffsets base offsets)) fun c => more c || isSeparator c
  /-- A separator with nothing behind it says no more than the address. -/
  | lone {text base offsets more} {sep : Char} : Address.Sentence text base offsets more →
      isSeparator sep = true → more sep = false →
      Sentence (text ++ [sep]) (.one (.ofOffsets base offsets)) Address.starts
  | fromFirstLine {text base offsets more} : Address.Sentence text base offsets more →
      Sentence (',' :: text) (.two ⟨.line 1, 0⟩ (.ofOffsets base offsets) false) more
  | fromDot {text base offsets more} : Address.Sentence text base offsets more →
      Sentence (';' :: text) (.two ⟨.dot, 0⟩ (.ofOffsets base offsets) false) more
  | two {text base offsets more text' base' offsets' more'} {sep : Char} :
      Address.Sentence text base offsets more → isSeparator sep = true → more sep = false →
      Address.Sentence text' base' offsets' more' →
      Sentence (text ++ sep :: text')
        (.two (.ofOffsets base offsets) (.ofOffsets base' offsets') (sep = ';')) more'

/-- What a text behind a separator comes to: with no address there, to `short`. -/
def behindSeparator (short : RangeExpr) (long : Address → RangeExpr) (s : List Char) :
    Except EditError (RangeExpr × List Char) :=
  (Address.parse s).map fun found => found.elim (short, s) fun x => (long x.1, x.2)

/-- How a range goes on behind its first address. -/
def behindFirst (first : Address) : List Char → Except EditError (RangeExpr × List Char)
  | [] => .ok (.one first, [])
  | sep :: rest =>
    if isSeparator sep then behindSeparator (.one first) (.two first · (sep = ';')) rest
    else .ok (.one first, sep :: rest)

section
variable {short : RangeExpr} {long : Address → RangeExpr} {s : List Char}

theorem afterSeparator_eq (first : Address) (short : RangeExpr) (s : List Char) :
    afterSeparator first short s = behindSeparator short (.two first · false) s := by
  unfold afterSeparator behindSeparator
  cases Address.parse s with
  | error err => rfl
  | ok found => cases found <;> rfl

theorem behindSeparator_none (h : Stops Address.starts s) :
    behindSeparator short long s = .ok (short, s) := by
  rw [behindSeparator, Address.parse_none h]
  rfl

theorem behindSeparator_sentence {text rest : List Char} {base : Base} {offsets : List Offset}
    {more : Char → Bool} (h : Address.Sentence text base offsets more) (hrest : Stops more rest) :
    behindSeparator short long (text ++ rest) = .ok (long (.ofOffsets base offsets), rest) := by
  rw [behindSeparator, Address.parse_sentence h hrest]
  rfl

theorem behindSeparator_eq_ok {expr : RangeExpr} {rest : List Char}
    (h : behindSeparator short long s = .ok (expr, rest)) :
    (Stops Address.starts s ∧ expr = short ∧ rest = s) ∨
      ∃ text base offsets more, Address.Sentence text base offsets more ∧
        expr = long (.ofOffsets base offsets) ∧ s = text ++ rest ∧ Stops more rest := by
  unfold behindSeparator at h
  cases hfound : Address.parse s with
  | error err =>
    rw [hfound] at h
    cases h
  | ok found =>
    rw [hfound] at h
    cases Address.parse_eq_ok hfound with
    | none hstarts =>
      cases h
      exact .inl ⟨hstarts, rfl, rfl⟩
    | address hsentence hs hstops =>
      cases h
      exact .inr ⟨_, _, _, _, hsentence, rfl, hs, hstops⟩

end

theorem parse_of_stops {s : List Char} (h : Stops isShort s) :
    parse s = (Address.parse s >>= fun
      | some (first, rest) => behindFirst first rest
      | none => .ok (.default, s)) := by
  rw [parse.eq_def]
  split
  · simp [stops_cons, isShort] at h
  · simp [stops_cons, isShort, isSeparator] at h
  · simp [stops_cons, isShort, isSeparator] at h
  · cases Address.parse s with
    | error err => rfl
    | ok found =>
      match found with
      | none => rfl
      | some (first, []) => rfl
      | some (first, sep :: rest) =>
        show (if (decide (sep = ',') || decide (sep = ';')) = true then _ else _) =
          (if isSeparator sep = true then _ else _)
        split
        · rw [if_pos (by assumption), behindSeparator]
          cases Address.parse rest with
          | error err => rfl
          | ok found => cases found <;> rfl
        · rw [if_neg (by assumption)]
          rfl

/-- What begins an address is none of the signs that stand for a range. -/
theorem not_short_of_starts {c : Char} (h : Address.starts c = true) :
    isShort c = false := by
  by_contra hshort
  simp only [isShort, Bool.not_eq_false, Bool.or_eq_true, decide_eq_true_eq, isSeparator] at hshort
  rcases hshort with (rfl | rfl) | rfl <;> revert h <;> decide

section
variable {text rest : List Char} {base : Base} {offsets : List Offset} {more : Char → Bool}
  (h : Address.Sentence text base offsets more)
include h

theorem parse_first (hrest : Stops more rest) :
    parse (text ++ rest) = behindFirst (.ofOffsets base offsets) rest := by
  have hstops : Stops isShort (text ++ rest) := by
    obtain ⟨c, behind, rfl, hc⟩ := h.begins
    exact stops_cons.mpr (not_short_of_starts hc)
  rw [parse_of_stops hstops, Address.parse_sentence h hrest]
  rfl

end

theorem parse_sentence {text rest : List Char} {expr : RangeExpr} {more : Char → Bool}
    (h : Sentence text expr more) (hrest : Stops more rest) :
    parse (text ++ rest) = .ok (expr, rest) := by
  cases h with
  | default =>
    have hstarts : Stops Address.starts rest := hrest.mono fun c hc => (Bool.or_eq_false_iff.mp hc).1
    have hshort : Stops isShort rest := hrest.mono fun c hc => (Bool.or_eq_false_iff.mp hc).2
    rw [List.nil_append, parse_of_stops hshort, Address.parse_none hstarts]
    rfl
  | percent => rfl
  | comma => exact (afterSeparator_eq _ _ _).trans (behindSeparator_none hrest)
  | semicolon => exact (afterSeparator_eq _ _ _).trans (behindSeparator_none hrest)
  | one hfirst =>
    rw [parse_first hfirst (hrest.mono fun c hc => (Bool.or_eq_false_iff.mp hc).1)]
    cases rest with
    | nil => rfl
    | cons c rest =>
      exact if_neg (by simp [(Bool.or_eq_false_iff.mp (stops_cons.mp hrest)).2])
  | lone hfirst hsep hmore =>
    rw [List.append_assoc]
    exact (parse_first hfirst (stops_cons.mpr hmore)).trans
      ((if_pos hsep).trans (behindSeparator_none hrest))
  | fromFirstLine hsecond =>
    exact (afterSeparator_eq _ _ _).trans (behindSeparator_sentence hsecond hrest)
  | fromDot hsecond =>
    exact (afterSeparator_eq _ _ _).trans (behindSeparator_sentence hsecond hrest)
  | two hfirst hsep hmore hsecond =>
    rw [List.append_assoc]
    exact (parse_first hfirst (stops_cons.mpr hmore)).trans
      ((if_pos hsep).trans (behindSeparator_sentence hsecond hrest))

theorem behindFirst_eq_ok {text behind rest : List Char} {base : Base} {offsets : List Offset}
    {more : Char → Bool} {expr : RangeExpr} (hfirst : Address.Sentence text base offsets more)
    (hstops : Stops more behind)
    (h : behindFirst (.ofOffsets base offsets) behind = .ok (expr, rest)) :
    ∃ read more, Sentence read expr more ∧ text ++ behind = read ++ rest ∧ Stops more rest := by
  cases behind with
  | nil =>
    cases h
    exact ⟨text, _, .one hfirst, rfl, stops_nil _⟩
  | cons sep behind =>
    have hmore : more sep = false := stops_cons.mp hstops
    rw [behindFirst.eq_def] at h
    dsimp only at h
    by_cases hsep : isSeparator sep = true
    · rw [if_pos hsep] at h
      rcases behindSeparator_eq_ok h with ⟨hstarts, rfl, rfl⟩ |
        ⟨text', base', offsets', more', hsecond, rfl, rfl, hrest⟩
      · exact ⟨text ++ [sep], _, .lone hfirst hsep hmore, by simp, hstarts⟩
      · exact ⟨text ++ sep :: text', more', .two hfirst hsep hmore hsecond, by simp, hrest⟩
    · rw [if_neg hsep] at h
      cases h
      exact ⟨text, _, .one hfirst, rfl, stops_cons.mpr (by simp [hmore, hsep])⟩

/-- What is read as a range is written as one. -/
theorem parse_eq_ok {s rest : List Char} {expr : RangeExpr} (h : parse s = .ok (expr, rest)) :
    ∃ text more, Sentence text expr more ∧ s = text ++ rest ∧ Stops more rest := by
  by_cases hshort : Stops isShort s
  · rw [parse_of_stops hshort] at h
    obtain ⟨found, hfound, h⟩ := bind_eq_ok.mp h
    cases Address.parse_eq_ok hfound with
    | none hstarts =>
      cases h
      exact ⟨[], _, .default, rfl, fun c hc => Bool.or_eq_false_iff.mpr ⟨hstarts c hc, hshort c hc⟩⟩
    | address hfirst hs hstops =>
      subst hs
      exact behindFirst_eq_ok hfirst hstops h
  · cases s with
    | nil => exact absurd (stops_nil _) hshort
    | cons c s =>
      simp only [stops_cons, isShort, isSeparator, Bool.not_eq_false, Bool.or_eq_true,
        decide_eq_true_eq] at hshort
      rcases hshort with (rfl | rfl) | rfl
      · rcases behindSeparator_eq_ok ((afterSeparator_eq _ _ _).symm.trans h) with
          ⟨hstarts, rfl, rfl⟩ | ⟨text, base, offsets, more, hsecond, rfl, rfl, hrest⟩
        · exact ⟨[','], _, .comma, rfl, hstarts⟩
        · exact ⟨',' :: text, more, .fromFirstLine hsecond, rfl, hrest⟩
      · rcases behindSeparator_eq_ok ((afterSeparator_eq _ _ _).symm.trans h) with
          ⟨hstarts, rfl, rfl⟩ | ⟨text, base, offsets, more, hsecond, rfl, rfl, hrest⟩
        · exact ⟨[';'], _, .semicolon, rfl, hstarts⟩
        · exact ⟨';' :: text, more, .fromDot hsecond, rfl, hrest⟩
      · cases h
        exact ⟨['%'], _, .percent, rfl, fun _ _ => rfl⟩

end RangeExpr

/-! ## Ranges in writing -/

namespace Number

theorem ofDigits_toDigits (n : Nat) : ofDigits (Nat.toDigits 10 n) = n := by
  have hdigits := Nat.ofDigitChars_ten_toDigits (n := n)
  rwa [Nat.ofDigitChars_eq_foldl] at hdigits

theorem saturate_of_le {n : Int} (hlow : -(maxOffset + 1 : Int) ≤ n) (hhigh : n ≤ maxOffset) :
    saturate n = n := by
  unfold saturate
  omega

end Number

/-- A number as an offset, or none for zero. -/
def Offset.ofInt (n : Int) : List Offset :=
  if n = 0 then [] else [⟨n < 0, Nat.toDigits 10 n.natAbs⟩]

def Base.text : Base → List Char
  | line n => Nat.toDigits 10 n
  | dot => ['.']
  | dol => ['$']
  | label name => ['\'', name]
  | forward pattern => '/' :: (Delimited.escape '/' pattern ++ ['/'])
  | backward pattern => '?' :: (Delimited.escape '?' pattern ++ ['?'])

def Address.text (a : Address) : List Char := a.base.text ++ Offset.spell (Offset.ofInt a.offset)

def RangeExpr.text : RangeExpr → List Char
  | default => []
  | whole => [',']
  | dotToEnd => [';']
  | one a => a.text
  | two first second fromFirst => first.text ++ (if fromFirst then ';' else ',') :: second.text

/-- Some text before a delimiter is read as this one. -/
def Delimited.Representable (delim : Char) (body : List Char) : Prop :=
  ∃ s rest, scan delim s = ⟨body, rest, true⟩

/-- What can be written. -/
def Base.Proper : Base → Prop
  | line n => n ≤ Number.maxCount
  | dot | dol => True
  | label name => Labels.isName name = true
  | forward pattern => Delimited.Representable '/' pattern
  | backward pattern => Delimited.Representable '?' pattern

structure Address.Proper (a : Address) : Prop where
  base : a.base.Proper
  low : -(Number.maxOffset : Int) ≤ a.offset
  high : a.offset ≤ Number.maxOffset

def RangeExpr.Proper : RangeExpr → Prop
  | default | whole | dotToEnd => True
  | one a => a.Proper
  | two first second _ => first.Proper ∧ second.Proper

/-- What goes on with an address as it is written. -/
def Address.more (a : Address) : Char → Bool := goesOn (a.base.isLine || a.offset ≠ 0)

def RangeExpr.more : RangeExpr → Char → Bool
  | default => fun c => Address.starts c || isShort c
  | whole | dotToEnd => Address.starts
  | one a => fun c => a.more c || isSeparator c
  | two _ second _ => second.more

namespace Offset

theorem size_toDigits (back : Bool) (n : Nat) : size ⟨back, Nat.toDigits 10 n⟩ = n := by
  have hne : (Nat.toDigits 10 n).isEmpty = false := by simp [Nat.toDigits_ne_nil]
  rw [size, hne, if_neg Bool.false_ne_true, Number.ofDigits_toDigits]

theorem proper_toDigits (back : Bool) {n : Nat} (h : n ≤ Number.maxOffset) :
    Proper ⟨back, Nat.toDigits 10 n⟩ :=
  ⟨fun _ hc => Nat.isDigit_of_mem_toDigits (by decide) (by decide) hc, by rwa [size_toDigits]⟩

variable {n : Int} (hlow : -(Number.maxOffset : Int) ≤ n) (hhigh : n ≤ Number.maxOffset)
include hlow hhigh

theorem ofInt_proper : ∀ o ∈ ofInt n, o.Proper := by
  unfold ofInt
  split
  · simp
  · intro o ho
    obtain rfl := List.mem_singleton.mp ho
    exact proper_toDigits _ (by omega)

theorem total_ofInt : total 0 (ofInt n) = n := by
  unfold ofInt
  split
  · rename_i h
    exact h.symm
  · have hvalue : value ⟨n < 0, Nat.toDigits 10 n.natAbs⟩ = n := by
      rw [value, size_toDigits]
      by_cases hneg : n < 0
      · rw [if_pos (by simpa using hneg)]
        omega
      · rw [if_neg (by simpa using hneg)]
        omega
    show Number.saturate (0 + value _) = n
    rw [hvalue, Int.zero_add]
    exact Number.saturate_of_le (by omega) hhigh

end Offset

theorem Base.written_text {base : Base} (h : base.Proper) : base.Written base.text := by
  have hbody {mark : Char} (hne : '\\' ≠ mark) {pattern : List Char}
      (h : Delimited.Representable mark pattern) : Delimited.IsBody mark true pattern := by
    obtain ⟨s, rest, hscan⟩ := h
    exact (Delimited.scan_eq_iff hne).mp hscan |>.1.isBody
  cases base with
  | line n =>
    have hwritten := Written.line (Nat.toDigits_ne_nil (n := n) (b := 10))
      (fun c hc => Nat.isDigit_of_mem_toDigits (by decide) (by decide) hc)
      (by rw [Number.ofDigits_toDigits]; exact h)
    rwa [Number.ofDigits_toDigits] at hwritten
  | dot => exact .dot
  | dol => exact .dol
  | label name => exact .label h
  | forward pattern => exact .search true (hbody (by decide) h)
  | backward pattern => exact .search false (hbody (by decide) h)

theorem Address.sentence_text {a : Address} (h : a.Proper) :
    Sentence a.text a.base (Offset.ofInt a.offset) a.more := by
  have hsentence := Sentence.based (Base.written_text h.base) (Offset.ofInt_proper h.low h.high)
  have hempty : (!(Offset.ofInt a.offset).isEmpty) = decide (a.offset ≠ 0) := by
    unfold Offset.ofInt
    by_cases hzero : a.offset = 0 <;> simp [hzero]
  rw [hempty] at hsentence
  exact hsentence

theorem Address.ofOffsets_ofInt {a : Address} (h : a.Proper) :
    ofOffsets a.base (Offset.ofInt a.offset) = a := by
  rw [ofOffsets, Offset.total_ofInt h.low h.high]

namespace RangeExpr

theorem sentence_text {expr : RangeExpr} (h : expr.Proper) :
    Sentence expr.text expr expr.more := by
  cases expr with
  | default => exact .default
  | whole => exact .comma
  | dotToEnd => exact .semicolon
  | one a =>
    have hone := Sentence.one (Address.sentence_text h)
    rwa [Address.ofOffsets_ofInt h] at hone
  | two first second fromFirst =>
    obtain ⟨hfirst, hsecond⟩ := h
    have hmore (sep : Char) (hsep : sep = ';' ∨ sep = ',') : first.more sep = false := by
      unfold Address.more Address.goesOn
      rcases hsep with rfl | rfl <;> simp [Address.isSign]
    have htwo (sep : Char) (hsep : sep = ';' ∨ sep = ',') :
        Sentence (first.text ++ sep :: second.text) _ _ :=
      .two (Address.sentence_text hfirst) (by rcases hsep with rfl | rfl <;> rfl) (hmore sep hsep)
        (Address.sentence_text hsecond)
    rw [Address.ofOffsets_ofInt hfirst, Address.ofOffsets_ofInt hsecond] at htwo
    cases fromFirst with
    | true => exact htwo ';' (.inl rfl)
    | false => exact htwo ',' (.inr rfl)

/-- A text is read as a range and a rest if it is a sentence for that range with the rest behind it, and
the rest does not go on with the sentence. A range that can be written is read as what it was. -/
theorem parse_exactly :
    (∀ s expr rest, parse s = .ok (expr, rest) ↔
      ∃ text more, Sentence text expr more ∧ s = text ++ rest ∧ Stops more rest) ∧
    ∀ expr rest, expr.Proper → Stops expr.more rest →
      parse (expr.text ++ rest) = .ok (expr, rest) := by
  refine ⟨fun s expr rest => ⟨parse_eq_ok, ?_⟩, fun expr rest hproper hrest => ?_⟩
  · rintro ⟨text, more, hsentence, rfl, hrest⟩
    exact parse_sentence hsentence hrest
  · exact parse_sentence (sentence_text hproper) hrest

/-- A search for a text with a slash in it, and a label seen from what was found. -/
theorem parse_exactly_two :
    (two ⟨.forward ['a', '/', 'b'], 2⟩ ⟨.label 'k', -3⟩ true).text =
      ['/', 'a', '\\', '/', 'b', '/', '+', '2', ';', '\'', 'k', '-', '3'] ∧
    (two ⟨.forward ['a', '/', 'b'], 2⟩ ⟨.label 'k', -3⟩ true).Proper ∧
    Stops (two ⟨.forward ['a', '/', 'b'], 2⟩ ⟨.label 'k', -3⟩ true).more [',', 'x'] ∧
    parse ((two ⟨.forward ['a', '/', 'b'], 2⟩ ⟨.label 'k', -3⟩ true).text ++ [',', 'x']) =
      .ok (two ⟨.forward ['a', '/', 'b'], 2⟩ ⟨.label 'k', -3⟩ true, [',', 'x']) := by
  have hproper : (two ⟨.forward ['a', '/', 'b'], 2⟩ ⟨.label 'k', -3⟩ true).Proper :=
    ⟨⟨⟨['a', '\\', '/', 'b', '/'], [], by decide⟩, by decide, by decide⟩,
      ⟨(by decide : Labels.isName 'k' = true), by decide, by decide⟩⟩
  have hstops : Stops (two ⟨.forward ['a', '/', 'b'], 2⟩ ⟨.label 'k', -3⟩ true).more [',', 'x'] :=
    stops_cons.mpr (by decide)
  exact ⟨by decide, hproper, hstops, parse_exactly.2 _ _ hproper hstops⟩

end RangeExpr

end LineEditor
