import LineEditor.Command.Address
import LineEditor.Proofs.Delimiters
import LineEditor.Proofs.Leads
import Mathlib.Data.List.TakeWhile

/-!
# The grammar of addresses

An address is a base and offsets, or offsets alone. What may not follow it for it to end there depends on
how it ends: digits go on with a number, signs with any address, and a search without its delimiter only
ends with the text. The parser reads the sentences of this grammar and nothing else.
-/

namespace LineEditor

/-! ## Texts that stop -/

/-- The text does not begin with one of these characters. -/
def Stops (more : Char → Bool) (rest : List Char) : Prop :=
  ∀ c, rest.head? = some c → more c = false

section
variable {more less p : Char → Bool} {rest : List Char}

theorem stops_nil (more : Char → Bool) : Stops more [] := fun _ h => by cases h

theorem stops_cons {c : Char} : Stops more (c :: rest) ↔ more c = false := by
  constructor
  · exact fun h => h c rfl
  · rintro h _ ⟨⟩
    exact h

theorem Stops.mono (h : Stops more rest) (hle : ∀ c, more c = false → less c = false) :
    Stops less rest :=
  fun c hc => hle c (h c hc)

theorem stops_all_iff : Stops (fun _ => true) rest ↔ rest = [] := by
  cases rest with
  | nil => exact iff_of_true (stops_nil _) rfl
  | cons c rest => simp [stops_cons]

theorem stops_dropWhile (p : Char → Bool) (s : List Char) : Stops p (s.dropWhile p) := by
  intro c hc
  have hhead := List.head?_dropWhile_not p s
  rw [hc] at hhead
  exact hhead

theorem dropWhile_of_stops (h : Stops p rest) : rest.dropWhile p = rest := by
  cases rest with
  | nil => rfl
  | cons c rest => exact List.dropWhile_cons_of_neg (by simp [stops_cons.mp h])

theorem takeWhile_of_stops (h : Stops p rest) : rest.takeWhile p = [] := by
  cases rest with
  | nil => rfl
  | cons c rest => exact List.takeWhile_cons_of_neg (by simp [stops_cons.mp h])

variable {front : List Char} (hfront : ∀ c ∈ front, p c = true) (hrest : Stops p rest)
include hfront hrest

theorem takeWhile_front : (front ++ rest).takeWhile p = front := by
  rw [List.takeWhile_append_of_pos hfront, takeWhile_of_stops hrest, List.append_nil]

theorem dropWhile_front : (front ++ rest).dropWhile p = rest := by
  rw [List.dropWhile_append_of_pos hfront, dropWhile_of_stops hrest]

end

/-! ## Offsets -/

/-- An offset as it is written: its sign, and the digits behind it. -/
structure Offset where
  back : Bool
  digits : List Char
  deriving DecidableEq

namespace Offset

def sign (back : Bool) : Char := if back then '-' else '+'

def text (o : Offset) : List Char := sign o.back :: o.digits

/-- A sign alone is an offset of one. -/
def size (o : Offset) : Nat := if o.digits.isEmpty then 1 else Number.ofDigits o.digits

def value (o : Offset) : Int := if o.back then -o.size else o.size

structure Proper (o : Offset) : Prop where
  digits : ∀ c ∈ o.digits, c.isDigit = true
  size_le : o.size ≤ Number.maxOffset

/-- The offsets added up one by one, none of the sums leaving its range. -/
def total (n : Int) (offsets : List Offset) : Int :=
  offsets.foldl (fun n o => Number.saturate (n + o.value)) n

def spell (offsets : List Offset) : List Char := offsets.flatMap text

end Offset

namespace Address

/-- What goes on with an address of which the last part is a number, or is none. -/
def goesOn (numeral : Bool) (c : Char) : Bool := isSign c || numeral && c.isDigit

theorem number_eq_ok {top n : Nat} {digits : List Char} :
    number top digits = .ok n ↔ Number.ofDigits digits ≤ top ∧ n = Number.ofDigits digits := by
  unfold number Number.ofDigits?
  by_cases h : Number.ofDigits digits ≤ top
  · rw [if_pos h]
    constructor
    · rintro ⟨⟩
      exact ⟨h, rfl⟩
    · rintro ⟨-, rfl⟩
      rfl
  · rw [if_neg h]
    exact iff_of_false (fun hn => by cases hn) fun hn => h hn.1

/-- How much an offset with these digits comes to, if that is in its range. -/
def readSize (digits : List Char) : Except EditError Nat :=
  if digits.isEmpty then pure 1 else number Number.maxOffset digits

theorem readSize_eq_ok {digits : List Char} (back : Bool) {n : Nat} : readSize digits = .ok n ↔
    Offset.size ⟨back, digits⟩ ≤ Number.maxOffset ∧ n = Offset.size ⟨back, digits⟩ := by
  unfold readSize Offset.size
  cases digits with
  | nil =>
    constructor
    · rintro ⟨⟩
      exact ⟨show 1 ≤ Number.maxOffset by decide, rfl⟩
    · rintro ⟨-, rfl⟩
      rfl
  | cons c digits => exact number_eq_ok

theorem offsets_sign {n : Int} (back : Bool) (rest : List Char) :
    offsets n (Offset.sign back :: rest) = (readSize (rest.takeWhile Char.isDigit) >>= fun size =>
      offsets (Number.saturate (n + if back then -(size : Int) else size))
        (rest.dropWhile Char.isDigit)) := by
  have hsign : isSign (Offset.sign back) = true := by cases back <;> decide
  have hvalue (size : Nat) : (if Offset.sign back = '+' then n + size else n - size : Int) =
      n + if back then -(size : Int) else size := by
    cases back
    · rfl
    · exact Int.sub_eq_add_neg
  rw [offsets.eq_def]
  dsimp only
  rw [if_pos hsign]
  simp only [hvalue]
  unfold readSize
  split <;> rfl

theorem offsets_of_stops {n : Int} {s : List Char} (h : Stops isSign s) :
    offsets n s = .ok (n, s) := by
  rw [offsets.eq_def]
  cases s with
  | nil => rfl
  | cons c rest =>
    dsimp only
    rw [if_neg (by simp [stops_cons.mp h])]
    rfl

theorem stops_goesOn {numeral : Bool} {rest : List Char} : Stops (goesOn numeral) rest ↔
    Stops isSign rest ∧ (numeral = true → Stops Char.isDigit rest) := by
  unfold Stops goesOn
  cases numeral <;> simp [forall_and]

/-- Behind a number come no digits. -/
theorem stops_spell {offsets : List Offset} {rest : List Char}
    (hrest : Stops Char.isDigit rest) : Stops Char.isDigit (Offset.spell offsets ++ rest) := by
  cases offsets with
  | nil => exact hrest
  | cons o offsets =>
    refine stops_cons.mpr ?_
    cases o.back <;> decide

theorem offsets_spell {offsets : List Offset} (h : ∀ o ∈ offsets, o.Proper) {rest : List Char}
    (hrest : Stops (goesOn (!offsets.isEmpty)) rest) (n : Int) :
    Address.offsets n (Offset.spell offsets ++ rest) = .ok (Offset.total n offsets, rest) := by
  obtain ⟨hsign, hdigit⟩ := stops_goesOn.mp hrest
  induction offsets generalizing n with
  | nil => exact offsets_of_stops hsign
  | cons o offsets ih =>
    obtain ⟨ho, hoffsets⟩ := List.forall_mem_cons.mp h
    have hnext : Stops Char.isDigit (Offset.spell offsets ++ rest) := stops_spell (hdigit rfl)
    have hspell : Offset.spell (o :: offsets) ++ rest =
        Offset.sign o.back :: (o.digits ++ (Offset.spell offsets ++ rest)) := by
      simp [Offset.spell, Offset.text]
    rw [hspell, offsets_sign, takeWhile_front ho.digits hnext, dropWhile_front ho.digits hnext,
      (readSize_eq_ok o.back).mpr ⟨ho.size_le, rfl⟩]
    exact ih hoffsets (stops_goesOn.mpr ⟨hsign, fun _ => hdigit rfl⟩) _ fun _ => hdigit rfl

theorem stops_or_sign (s : List Char) :
    Stops isSign s ∨ ∃ back behind, s = Offset.sign back :: behind := by
  cases s with
  | nil => exact .inl (stops_nil _)
  | cons c behind =>
    cases hc : isSign c with
    | false => exact .inl (stops_cons.mpr hc)
    | true =>
      unfold isSign at hc
      simp only [Bool.or_eq_true, decide_eq_true_eq] at hc
      rcases hc with rfl | rfl
      · exact .inr ⟨false, behind, rfl⟩
      · exact .inr ⟨true, behind, rfl⟩

/-- What is read as offsets is written as offsets. By the length of the text, which each offset makes
shorter. -/
theorem offsets_eq_ok {n total : Int} {s rest : List Char}
    (h : Address.offsets n s = .ok (total, rest)) : ∃ offsets : List Offset,
      (∀ o ∈ offsets, o.Proper) ∧ s = Offset.spell offsets ++ rest ∧ total = Offset.total n offsets ∧
        Stops (goesOn (!offsets.isEmpty)) rest := by
  induction hs : s.length using Nat.strong_induction_on generalizing s n with
  | _ length ih =>
  rcases stops_or_sign s with hstop | ⟨back, behind, rfl⟩
  · rw [offsets_of_stops hstop] at h
    obtain ⟨rfl, rfl⟩ := Prod.mk.inj (Except.ok.inj h)
    exact ⟨[], by simp, rfl, rfl, stops_goesOn.mpr ⟨hstop, by simp⟩⟩
  · rw [offsets_sign] at h
    obtain ⟨size, hsize, h⟩ := bind_eq_ok.mp h
    obtain ⟨hle, rfl⟩ := (readSize_eq_ok back).mp hsize
    have hshorter : (behind.dropWhile Char.isDigit).length < length := by
      have hsuffix := (List.dropWhile_suffix (l := behind) Char.isDigit).length_le
      rw [List.length_cons] at hs
      omega
    obtain ⟨offsets, hproper, hdrop, htotal, hrest⟩ := ih _ hshorter h rfl
    obtain ⟨hsign, hdigit⟩ := stops_goesOn.mp hrest
    have hdigits : Stops Char.isDigit rest := by
      cases offsets with
      | nil =>
        rw [← show behind.dropWhile Char.isDigit = rest from hdrop]
        exact stops_dropWhile _ _
      | cons o offsets => exact hdigit rfl
    refine ⟨⟨back, behind.takeWhile Char.isDigit⟩ :: offsets, ?_, ?_, htotal,
      stops_goesOn.mpr ⟨hsign, fun _ => hdigits⟩⟩
    · refine List.forall_mem_cons.mpr ⟨⟨fun c hc => ?_, hle⟩, hproper⟩
      exact List.mem_takeWhile_imp hc
    · show Offset.sign back :: behind = Offset.sign back :: (_ ++ Offset.spell offsets) ++ rest
      rw [List.cons_append, List.append_assoc, ← hdrop]
      exact congrArg _ (List.takeWhile_append_dropWhile).symm

/-! ## Bases -/

/-- What goes in front of the pattern of a search, and behind it. -/
def mark (forward : Bool) : Char := if forward then '/' else '?'

def searchFor (forward : Bool) (body : List Char) : Base :=
  if forward then .forward body else .backward body

end Address

/-- How a base is written. -/
inductive Base.Written : List Char → Base → Prop
  | line {digits : List Char} : digits ≠ [] → (∀ c ∈ digits, c.isDigit = true) →
      Number.ofDigits digits ≤ Number.maxCount → Written digits (.line (Number.ofDigits digits))
  | dot : Written ['.'] .dot
  | dol : Written ['$'] .dol
  | label {name : Char} : Labels.isName name = true → Written ['\'', name] (.label name)
  | search (forward : Bool) {body : List Char} :
      Delimited.IsBody (Address.mark forward) true body →
      Written (Address.mark forward :: (Delimited.escape (Address.mark forward) body ++
        [Address.mark forward])) (Address.searchFor forward body)

/-- A search that ends with the text needs no delimiter at its end. -/
inductive Base.Unclosed : List Char → Base → Prop
  | search (forward : Bool) {body : List Char} :
      Delimited.IsBody (Address.mark forward) false body →
      Unclosed (Address.mark forward :: Delimited.escape (Address.mark forward) body)
        (Address.searchFor forward body)

def Base.isLine : Base → Bool
  | line _ => true
  | _ => false

namespace Address

/-- The characters with which a base begins. -/
def startsBase (c : Char) : Bool := c.isDigit || ['.', '$', '\'', '/', '?'].contains c

def starts (c : Char) : Bool := startsBase c || isSign c

theorem base?_none {s : List Char} (h : Stops startsBase s) : base? s = .ok (none, s) := by
  cases s with
  | nil => rfl
  | cons c rest =>
    have hc := stops_cons.mp h
    simp [startsBase] at hc
    simp [base?, hc, pure, Except.pure]

theorem base?_digits {digits rest : List Char} (hne : digits ≠ [])
    (hdigits : ∀ c ∈ digits, c.isDigit = true) (hrest : Stops Char.isDigit rest) :
    base? (digits ++ rest) = (number Number.maxCount digits >>= fun n =>
      return (some (.line n), rest)) := by
  obtain ⟨c, more, rfl⟩ := List.exists_cons_of_ne_nil hne
  have hc : c.isDigit = true := hdigits c List.mem_cons_self
  have htake := takeWhile_front hdigits hrest
  have hdrop := dropWhile_front hdigits hrest
  rw [List.cons_append] at htake hdrop ⊢
  rw [base?.eq_def]
  dsimp only
  rw [if_pos hc, htake, hdrop]

theorem base?_mark (forward : Bool) (s : List Char) : base? (mark forward :: s) =
    .ok (some (searchFor forward (Delimited.scan (mark forward) s).body),
      (Delimited.scan (mark forward) s).rest) := by
  cases forward <;> simp [base?, mark, searchFor, pure, Except.pure]

theorem mark_ne_backslash (forward : Bool) : '\\' ≠ mark forward := by
  cases forward <;> decide

theorem base?_written {text rest : List Char} {base : Base} (h : base.Written text)
    (hrest : base.isLine = true → Stops Char.isDigit rest) :
    base? (text ++ rest) = .ok (some base, rest) := by
  cases h with
  | line hne hdigits hle =>
    rw [base?_digits hne hdigits (hrest rfl), number_eq_ok.mpr ⟨hle, rfl⟩]
    rfl
  | dot => rfl
  | dol => rfl
  | @label name hname => simp [base?, hname, pure, Except.pure]
  | @search forward body hbody =>
    have hscan : Delimited.scan (mark forward)
        (Delimited.escape (mark forward) body ++ mark forward :: rest) = ⟨body, rest, true⟩ :=
      Delimited.scan_text (mark_ne_backslash forward) (d := ⟨body, rest, true⟩) ⟨hbody, by simp⟩
    rw [List.cons_append, List.append_assoc, List.singleton_append, base?_mark, hscan]

theorem base?_unclosed {text : List Char} {base : Base} (h : base.Unclosed text) :
    base? text = .ok (some base, []) := by
  obtain ⟨forward, hbody⟩ := h
  rename_i body
  have hscan : Delimited.scan (mark forward) (Delimited.escape (mark forward) body) =
      ⟨body, [], false⟩ := by
    have htext := Delimited.scan_text (mark_ne_backslash forward) (d := ⟨body, [], false⟩)
      ⟨hbody, fun _ => rfl⟩
    rwa [Delimited.text, if_neg (by simp), List.append_nil] at htext
  rw [base?_mark, hscan]

/-- What is read as a base is written as one, or is a search up to the end. -/
inductive ReadsBase (s : List Char) : Option Base → List Char → Prop
  | none : Stops startsBase s → ReadsBase s none s
  | written {text rest : List Char} {base : Base} : base.Written text → s = text ++ rest →
      (base.isLine = true → Stops Char.isDigit rest) → ReadsBase s (some base) rest
  | unclosed {base : Base} : base.Unclosed s → ReadsBase s (some base) []

theorem readsBase_mark (forward : Bool) (s : List Char) : ReadsBase (mark forward :: s)
    (some (searchFor forward (Delimited.scan (mark forward) s).body))
    (Delimited.scan (mark forward) s).rest := by
  obtain ⟨⟨hbody, hrest⟩, htext⟩ := Delimited.scan_read (mark_ne_backslash forward) s
  generalize Delimited.scan (mark forward) s = d at *
  obtain ⟨body, rest, closed⟩ := d
  subst htext
  unfold Delimited.text
  cases closed with
  | true =>
    refine .written (.search forward hbody) ?_ fun h => ?_
    · simp
    · cases forward <;> cases h
  | false =>
    obtain rfl := hrest rfl
    rw [if_neg (by simp), List.append_nil]
    exact .unclosed (.search forward hbody)

theorem readsBase_digits {s rest : List Char} {b : Option Base} {c : Char}
    (hc : c.isDigit = true) (h : base? (c :: s) = .ok (b, rest)) : ReadsBase (c :: s) b rest := by
  have hcut := List.takeWhile_append_dropWhile (p := Char.isDigit) (l := c :: s)
  have hne : (c :: s).takeWhile Char.isDigit ≠ [] := by simp [hc]
  have hdigits : ∀ d ∈ (c :: s).takeWhile Char.isDigit, d.isDigit = true :=
    fun d hd => List.mem_takeWhile_imp hd
  have hstops := stops_dropWhile Char.isDigit (c :: s)
  rw [← hcut, base?_digits hne hdigits hstops] at h
  obtain ⟨n, hn, h⟩ := bind_eq_ok.mp h
  obtain ⟨hle, rfl⟩ := number_eq_ok.mp hn
  cases h
  exact .written (.line hne hdigits hle) hcut.symm fun _ => hstops

theorem base?_eq_ok {s rest : List Char} {b : Option Base} (h : base? s = .ok (b, rest)) :
    ReadsBase s b rest := by
  by_cases hstops : Stops startsBase s
  · rw [base?_none hstops] at h
    cases h
    exact .none hstops
  cases s with
  | nil => exact absurd (stops_nil _) hstops
  | cons c s =>
    have hmark (forward : Bool) (h : base? (mark forward :: s) = .ok (b, rest)) :
        ReadsBase (mark forward :: s) b rest := by
      rw [base?_mark] at h
      cases h
      exact readsBase_mark forward s
    simp only [stops_cons, startsBase, Bool.not_eq_false, Bool.or_eq_true, List.contains_eq_mem,
      decide_eq_true_eq, List.mem_cons, List.not_mem_nil, or_false] at hstops
    rcases hstops with hdigit | rfl | rfl | rfl | rfl | rfl
    · exact readsBase_digits hdigit h
    · cases h
      exact .written .dot rfl fun h => by cases h
    · cases h
      exact .written .dol rfl fun h => by cases h
    · cases s with
      | nil => cases h
      | cons name s =>
        by_cases hname : Labels.isName name = true
        · rw [show '\'' :: name :: s = ['\'', name] ++ s from rfl,
            base?_written (.label hname) (fun h => by cases h)] at h
          cases h
          exact .written (.label hname) rfl fun h => by cases h
        · simp [base?, hname] at h
    · exact hmark true h
    · exact hmark false h

/-! ## Addresses -/

/-- The address with this base and these offsets. -/
def ofOffsets (base : Base) (offsets : List Offset) : Address := ⟨base, Offset.total 0 offsets⟩

/-- How an address is written, and what goes on with it: all that follows a search whose end is that
of the text, a sign behind any other address, and a digit behind one that ends with a number. -/
inductive Sentence : List Char → Base → List Offset → (Char → Bool) → Prop
  | based {text : List Char} {base : Base} {offsets : List Offset} : base.Written text →
      (∀ o ∈ offsets, o.Proper) →
      Sentence (text ++ Offset.spell offsets) base offsets (goesOn (base.isLine || !offsets.isEmpty))
  /-- Offsets alone count from dot. -/
  | relative {offsets : List Offset} : offsets ≠ [] → (∀ o ∈ offsets, o.Proper) →
      Sentence (Offset.spell offsets) .dot offsets (goesOn true)
  | unclosed {text : List Char} {base : Base} : base.Unclosed text →
      Sentence text base [] fun _ => true

/-- What is made of a base, of the text behind it and of the offsets read there. -/
def assemble (behind : List Char) (n : Int) (rest : List Char) :
    Option Base → Option (Address × List Char)
  | some base => some (⟨base, n⟩, rest)
  | none => if behind.head?.any isSign then some (⟨.dot, n⟩, rest) else none

theorem parse_eq {s behind rest : List Char} {b : Option Base} {n : Int}
    (hb : base? s = .ok (b, behind)) (hn : offsets 0 behind = .ok (n, rest)) :
    parse s = .ok (assemble behind n rest b) := by
  unfold parse
  rw [hb]
  dsimp only [bind, Except.bind]
  rw [hn]
  cases b <;> rfl

theorem parse_sentence {text rest : List Char} {base : Base} {offsets : List Offset}
    {more : Char → Bool} (h : Sentence text base offsets more) (hrest : Stops more rest) :
    parse (text ++ rest) = .ok (some (ofOffsets base offsets, rest)) := by
  cases h with
  | @based text base offsets hbase hoffsets =>
    obtain ⟨hsign, hdigit⟩ := stops_goesOn.mp hrest
    have hstops : Stops (goesOn (!offsets.isEmpty)) rest :=
      stops_goesOn.mpr ⟨hsign, fun h => hdigit (by simp [h])⟩
    have hbehind : base.isLine = true → Stops Char.isDigit (Offset.spell offsets ++ rest) :=
      fun h => stops_spell (hdigit (by simp [h]))
    rw [List.append_assoc]
    exact parse_eq (base?_written hbase hbehind) (offsets_spell hoffsets hstops 0)
  | relative hne hoffsets =>
    obtain ⟨o, more, rfl⟩ := List.exists_cons_of_ne_nil hne
    have hstart : Stops startsBase (Offset.spell (o :: more) ++ rest) :=
      stops_cons.mpr (by cases o.back <;> decide)
    have hsigned : (Offset.spell (o :: more) ++ rest).head?.any isSign = true := by
      show isSign (Offset.sign o.back) = true
      cases o.back <;> decide
    rw [parse_eq (base?_none hstart) (offsets_spell hoffsets hrest 0), assemble, if_pos hsigned]
    rfl
  | unclosed hbase =>
    obtain rfl := stops_all_iff.mp hrest
    rw [List.append_nil]
    exact parse_eq (base?_unclosed hbase) (offsets_of_stops (stops_nil _))

theorem mark_starts (forward : Bool) : startsBase (mark forward) = true := by
  cases forward <;> decide

theorem base_begins {text : List Char} {base : Base} (h : base.Written text) :
    ∃ c rest, text = c :: rest ∧ startsBase c = true := by
  cases h with
  | line hne hdigits =>
    obtain ⟨c, rest, rfl⟩ := List.exists_cons_of_ne_nil hne
    exact ⟨c, rest, rfl, by simp [startsBase, hdigits c List.mem_cons_self]⟩
  | dot => exact ⟨_, _, rfl, by decide⟩
  | dol => exact ⟨_, _, rfl, by decide⟩
  | label => exact ⟨_, _, rfl, by decide⟩
  | search forward => exact ⟨_, _, rfl, mark_starts forward⟩

theorem Sentence.begins {text : List Char} {base : Base} {offsets : List Offset}
    {more : Char → Bool} (h : Sentence text base offsets more) :
    ∃ c rest, text = c :: rest ∧ starts c = true := by
  cases h with
  | based hbase =>
    obtain ⟨c, rest, rfl, hc⟩ := base_begins hbase
    exact ⟨c, _, rfl, by rw [starts, hc, Bool.true_or]⟩
  | relative hne =>
    obtain ⟨o, rest, rfl⟩ := List.exists_cons_of_ne_nil hne
    exact ⟨_, _, rfl, by cases o.back <;> decide⟩
  | unclosed hbase =>
    obtain ⟨forward, -⟩ := hbase
    exact ⟨_, _, rfl, by rw [starts, mark_starts, Bool.true_or]⟩

theorem parse_none {s : List Char} (h : Stops starts s) : parse s = .ok none := by
  have hbase : Stops startsBase s := h.mono fun c hc => (Bool.or_eq_false_iff.mp hc).1
  have hsign : Stops isSign s := h.mono fun c hc => (Bool.or_eq_false_iff.mp hc).2
  have hnone : s.head?.any isSign = false := by
    cases s with
    | nil => rfl
    | cons c s => exact stops_cons.mp hsign
  rw [parse_eq (base?_none hbase) (offsets_of_stops hsign), assemble, if_neg (by simp [hnone])]

/-- What is read as an address is written as one; where there is none, none begins. -/
inductive Reading (s : List Char) : Option (Address × List Char) → Prop
  | address {text rest : List Char} {base : Base} {offsets : List Offset} {more : Char → Bool} :
      Sentence text base offsets more → s = text ++ rest → Stops more rest →
      Reading s (some (ofOffsets base offsets, rest))
  | none : Stops starts s → Reading s none

theorem parse_eq_ok {s : List Char} {found : Option (Address × List Char)}
    (h : parse s = .ok found) : Reading s found := by
  have hparse := h
  unfold parse at hparse
  obtain ⟨⟨b, behind⟩, hb, hparse⟩ := bind_eq_ok.mp hparse
  obtain ⟨⟨n, rest⟩, hn, -⟩ := bind_eq_ok.mp hparse
  obtain rfl := Except.ok.inj ((parse_eq hb hn).symm.trans h)
  obtain ⟨offsets, hproper, hspell, rfl, hstops⟩ := offsets_eq_ok hn
  cases base?_eq_ok hb with
  | none hstart =>
    subst hspell
    cases offsets with
    | nil =>
      obtain ⟨hsign, -⟩ := stops_goesOn.mp hstops
      have hnone : rest.head?.any isSign = false := by
        cases rest with
        | nil => rfl
        | cons c rest => exact stops_cons.mp hsign
      have hbegins : Stops starts rest := fun c hc =>
        Bool.or_eq_false_iff.mpr ⟨hstart c hc, hsign c hc⟩
      show Reading rest (if rest.head?.any isSign then _ else none)
      rw [if_neg (by simp [hnone])]
      exact .none hbegins
    | cons o offsets =>
      have hsigned : (Offset.spell (o :: offsets) ++ rest).head?.any isSign = true := by
        show isSign (Offset.sign o.back) = true
        cases o.back <;> decide
      rw [assemble, if_pos hsigned]
      exact .address (.relative (by simp) hproper) rfl hstops
  | @written text _ base hbase hs hline =>
    subst hspell
    refine .address (.based hbase hproper) (by rw [hs, List.append_assoc]) ?_
    obtain ⟨hsign, hdigit⟩ := stops_goesOn.mp hstops
    refine stops_goesOn.mpr ⟨hsign, fun hnumeral => ?_⟩
    cases offsets with
    | nil => exact hline (by simpa using hnumeral)
    | cons o offsets => exact hdigit rfl
  | unclosed hbase =>
    obtain ⟨hnil, rfl⟩ := List.append_eq_nil_iff.mp hspell.symm
    obtain rfl : offsets = [] := by
      cases offsets with
      | nil => rfl
      | cons o offsets => cases hnil
    exact .address (.unclosed hbase) (List.append_nil _).symm (stops_nil _)

end Address

end LineEditor
