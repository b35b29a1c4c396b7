import LineEditor.Toml.Value

/-!
# TOML scalars

Numbers, truth values and dates are words without quotes. A word is one of them or the document is
not well formed.
-/

namespace LineEditor.Toml

namespace Scalar

def isDigitOf (base : Nat) (c : Char) : Bool :=
  if base ≤ 10 then 48 ≤ c.toNat && c.toNat < 48 + base
  else c.isDigit || ('a' ≤ c && c ≤ 'f') || ('A' ≤ c && c ≤ 'F')

def digitValue (c : Char) : Nat :=
  if c.isDigit then c.toNat - 48
  else if 'a' ≤ c then c.toNat - 87
  else c.toNat - 55

/-- Digits with single underscores between them: the digits alone. -/
def digits? (base : Nat) : List Char → Option (List Char)
  | [] => none
  | [c] => if isDigitOf base c then some [c] else none
  | c :: '_' :: d :: rest =>
    if isDigitOf base c && isDigitOf base d then (digits? base (d :: rest)).map (c :: ·) else none
  | c :: rest => if isDigitOf base c then (digits? base rest).map (c :: ·) else none

def number (base : Nat) (digits : List Char) : Nat :=
  digits.foldl (fun n c => base * n + digitValue c) 0

/-- Decimal digits that start with no zero, other than zero itself. -/
def decimal? (s : List Char) : Option (List Char) :=
  match s with
  | '0' :: _ :: _ => none
  | _ => digits? 10 s

/-- The least number of 128 bits with a sign, and the greatest without one. -/
def leastInteger : Int := -0x80000000000000000000000000000000

def greatestInteger : Int := 0xffffffffffffffffffffffffffffffff

/-- A number that fits into 128 bits with or without a sign. -/
def bounded (n : Int) : Option Value :=
  if leastInteger ≤ n && n ≤ greatestInteger then some (.integer n) else none

/-- A word without its sign, and whether the sign is a minus; the flag says whether it has one. -/
def splitSign (s : List Char) : Bool × Bool × List Char :=
  match s with
  | '+' :: rest => (true, false, rest)
  | '-' :: rest => (true, true, rest)
  | _ => (false, false, s)

def integer? (s : List Char) : Option Value :=
  let (signed, negative, body) := splitSign s
  let based (base : Nat) (rest : List Char) : Option Value := do
    if signed then none
    else bounded (number base (← digits? base rest))
  match body with
  | '0' :: 'x' :: rest => based 16 rest
  | '0' :: 'o' :: rest => based 8 rest
  | '0' :: 'b' :: rest => based 2 rest
  | _ => do
    let n := number 10 (← decimal? body)
    bounded (if negative then -(n : Int) else n)

def exponent? (s : List Char) : Option Int :=
  let (_, negative, body) := splitSign s
  (digits? 10 body).map fun ds => if negative then -(number 10 ds : Int) else number 10 ds

/-- The least number that is nearer to 2 ^ 1024 than to any double. -/
def infiniteFrom : Nat := Nat.pow 2 1024 - Nat.pow 2 970

/-- The number of digits before the point of that number. -/
def infinitePlaces : Nat := 309

/-- Whether digits followed by so many zeros, or with a point so far from their end, are a number
that rounds to infinity. -/
def isInfinite (digits : List Char) (exponent : Int) : Bool :=
  let places := ((digits.dropWhile (· = '0')).length : Int) + exponent
  if number 10 digits = 0 || places < infinitePlaces then false
  else if infinitePlaces < places then true
  else infiniteFrom * Nat.pow 10 (-exponent).toNat ≤ number 10 digits * Nat.pow 10 exponent.toNat

/-- A float; its value does not matter to anyone who reads documents here, but it has to have one. -/
def float? (s : List Char) : Option Value :=
  let (_, _, body) := splitSign s
  if body = "inf".toList || body = "nan".toList then some .float
  else do
    let isE (c : Char) : Bool := c = 'e' || c = 'E'
    let mantissa := body.takeWhile fun c => !isE c
    let power := body.dropWhile fun c => !isE c
    let point := mantissa.dropWhile (· ≠ '.')
    let whole ← decimal? (mantissa.takeWhile (· ≠ '.'))
    let fraction ← if point.isEmpty then some [] else digits? 10 (point.drop 1)
    let exponent ← if power.isEmpty then some 0 else exponent? (power.drop 1)
    if point.isEmpty && power.isEmpty || isInfinite (whole ++ fraction) (exponent - fraction.length)
    then none
    else some .float

/-! ## Dates and times -/

def fixed? (n : Nat) (s : List Char) : Option (Nat × List Char) :=
  let ds := s.take n
  if ds.length = n && ds.all Char.isDigit then some (number 10 ds, s.drop n) else none

def daysIn (year month : Nat) : Nat :=
  if month = 2 then
    if year % 4 = 0 && (year % 100 ≠ 0 || year % 400 = 0) then 29 else 28
  else if month = 4 || month = 6 || month = 9 || month = 11 then 30
  else 31

def date? (s : List Char) : Option (List Char) := do
  let (year, s) ← fixed? 4 s
  let '-' :: s := s | none
  let (month, s) ← fixed? 2 s
  let '-' :: s := s | none
  let (day, s) ← fixed? 2 s
  if 1 ≤ month && month ≤ 12 && 1 ≤ day && day ≤ daysIn year month then some s else none

def clock? (s : List Char) : Option (List Char) := do
  let (hour, s) ← fixed? 2 s
  let ':' :: s := s | none
  let (minute, s) ← fixed? 2 s
  if hour < 24 && minute < 60 then some s else none

/-- What follows the seconds at the front, which may be missing. -/
def seconds? (s : List Char) : Option (List Char) :=
  match s with
  | ':' :: s => do
    let (second, s) ← fixed? 2 s
    if 60 < second then none
    else
      match s with
      | '.' :: s =>
        let rest := s.dropWhile Char.isDigit
        if rest.length < s.length then some rest else none
      | _ => some s
  | _ => some s

def time? (s : List Char) : Option (List Char) := do seconds? (← clock? s)

/-- Whether a text is the distance from universal time. -/
def isOffset (s : List Char) : Bool :=
  match s with
  | ['Z'] | ['z'] => true
  | '+' :: s | '-' :: s => clock? s == some []
  | _ => false

def isDatetime (s : List Char) : Bool :=
  match date? s with
  | some [] => true
  | some (sep :: s) =>
    (sep = 'T' || sep = 't' || sep = ' ') &&
      match time? s with
      | some rest => rest.isEmpty || isOffset rest
      | none => false
  | none => time? s == some []

def parse? (s : List Char) : Option Value :=
  if s = "true".toList then some (.boolean true)
  else if s = "false".toList then some (.boolean false)
  else if isDatetime s then some .datetime
  else
    match float? s with
    | some v => some v
    | none => integer? s

end Scalar

end LineEditor.Toml
