import LineEditor.Command.Delimited
import LineEditor.Command.Number

/-!
# Addresses

An address is a line number, a dot, a dollar sign, a label after a quote, or a pattern to search
forward or backward, followed by any number of offsets. A sign alone is an offset of one; offsets
alone count from dot. A range is one address or two; a comma, a semicolon or a per cent sign alone
are short for the whole window or for the rest of it.
-/

namespace LineEditor

inductive Base where
  | line (n : Nat)
  | dot
  | dol
  | label (name : Char)
  | forward (pattern : List Char)
  | backward (pattern : List Char)
  deriving Repr, DecidableEq

structure Address where
  base : Base
  offset : Int
  deriving Repr, DecidableEq

inductive RangeExpr where
  /-- No address; each command has a range of its own for that. -/
  | default
  | whole
  | dotToEnd
  | one (a : Address)
  /-- From one address to another; with `fromFirst` the second one is read with dot at the first. -/
  | two (first second : Address) (fromFirst : Bool)
  deriving Repr, DecidableEq

namespace Address

def isSign (c : Char) : Bool := c = '+' || c = '-'

/-- A line number or offset at the front of a text; its digits are not empty. -/
def number (top : Nat) (digits : List Char) : Except EditError Nat :=
  match Number.ofDigits? top digits with
  | some n => return n
  | none => throw (.lineOutOfRange Number.maxCount)

/-- The sum of the offsets at the front of a text, added to `total`. -/
def offsets (total : Int) (s : List Char) : Except EditError (Int × List Char) :=
  match s with
  | [] => return (total, [])
  | c :: rest =>
    if isSign c then do
      let digits := rest.takeWhile Char.isDigit
      let n ← if digits.isEmpty then pure 1 else number Number.maxOffset digits
      offsets (Number.saturate (if c = '+' then total + n else total - n))
        (rest.dropWhile Char.isDigit)
    else return (total, c :: rest)
termination_by s.length
decreasing_by
  have := (List.dropWhile_suffix (l := rest) Char.isDigit).length_le
  simp only [List.length_cons]
  omega

def base? (s : List Char) : Except EditError (Option Base × List Char) :=
  match s with
  | [] => return (none, [])
  | c :: rest =>
    if c.isDigit then do
      let n ← number Number.maxCount (s.takeWhile Char.isDigit)
      return (some (.line n), s.dropWhile Char.isDigit)
    else if c = '.' then return (some .dot, rest)
    else if c = '$' then return (some .dol, rest)
    else if c = '\'' then
      match rest with
      | [] => throw .missingAddress
      | name :: rest =>
        if Labels.isName name then return (some (.label name), rest) else throw (.badLabel name)
    else if c = '/' then
      let d := Delimited.scan c rest
      return (some (.forward d.body), d.rest)
    else if c = '?' then
      let d := Delimited.scan c rest
      return (some (.backward d.body), d.rest)
    else return (none, s)

/-- The address at the front of a text, if there is one, and what follows. -/
def parse (s : List Char) : Except EditError (Option (Address × List Char)) := do
  let (base, behind) ← base? s
  let (offset, rest) ← offsets 0 behind
  match base with
  | some base => return some (⟨base, offset⟩, rest)
  | none => return if behind.head?.any isSign then some (⟨.dot, offset⟩, rest) else none

/-! ### Cutting addresses off

A line is read by cutting what is read off its front. -/

def takeDigits (s : List Char) : Except Breach (List Char × List Char) :=
  Slice.cut s (Slice.size (s.takeWhile Char.isDigit))

/-- `offsets`, cut off one by one. There are at most as many as characters. -/
def readOffsets : Nat → Int → List Char → Reading (Int × List Char)
  | 0, total, s => return (total, s)
  | fuel + 1, total, s =>
    match s.head? with
    | none => return (total, s)
    | some c =>
      if isSign c then do
        let (digits, rest) ← takeDigits (← Slice.behind s 1)
        let n ← if digits.isEmpty then pure 1 else liftExcept (number Number.maxOffset digits)
        readOffsets fuel (Number.saturate (if c = '+' then total + n else total - n)) rest
      else return (total, s)

/-- `base?`, cut off. -/
def readBase (s : List Char) : Reading (Option Base × List Char) :=
  match s.head? with
  | none => return (none, s)
  | some c =>
    if c.isDigit then do
      let (digits, rest) ← takeDigits s
      return (some (.line (← liftExcept (number Number.maxCount digits))), rest)
    else if c = '.' then return (some .dot, ← Slice.behind s 1)
    else if c = '$' then return (some .dol, ← Slice.behind s 1)
    else if c = '\'' then do
      match (← Slice.behind s 1).head? with
      | none => throw .missingAddress
      | some name =>
        if Labels.isName name then return (some (.label name), ← Slice.behind s 2)
        else throw (.badLabel name)
    else if c = '/' then do
      let d ← Delimited.read c (← Slice.behind s 1)
      return (some (.forward d.body), d.rest)
    else if c = '?' then do
      let d ← Delimited.read c (← Slice.behind s 1)
      return (some (.backward d.body), d.rest)
    else return (none, s)

/-- `parse`, with the cuts made. -/
def read (s : List Char) : Reading (Option (Address × List Char)) := do
  let (base, behind) ← readBase s
  let (offset, rest) ← readOffsets behind.length 0 behind
  match base with
  | some base => return some (⟨base, offset⟩, rest)
  | none => return if behind.head?.any isSign then some (⟨.dot, offset⟩, rest) else none

end Address

namespace RangeExpr

/-- The range after a separator that stands first: with no address behind it, `short`. -/
def afterSeparator (first : Address) (short : RangeExpr) (s : List Char) :
    Except EditError (RangeExpr × List Char) := do
  match ← Address.parse s with
  | some (second, rest) => return (.two first second false, rest)
  | none => return (short, s)

/-- The range at the front of a text, and what follows. -/
def parse (s : List Char) : Except EditError (RangeExpr × List Char) :=
  match s with
  | '%' :: rest => return (.whole, rest)
  | ',' :: rest => afterSeparator ⟨.line 1, 0⟩ .whole rest
  | ';' :: rest => afterSeparator ⟨.dot, 0⟩ .dotToEnd rest
  | s => do
    match ← Address.parse s with
    | none => return (.default, s)
    | some (first, []) => return (.one first, [])
    | some (first, sep :: rest) =>
      if sep = ',' || sep = ';' then
        match ← Address.parse rest with
        | some (second, rest) => return (.two first second (sep = ';'), rest)
        | none => return (.one first, rest)
      else return (.one first, sep :: rest)

def readAfterSeparator (first : Address) (short : RangeExpr) (s : List Char) :
    Reading (RangeExpr × List Char) := do
  match ← Address.read s with
  | some (second, rest) => return (.two first second false, rest)
  | none => return (short, s)

/-- `parse`, with the cuts made. -/
def read (s : List Char) : Reading (RangeExpr × List Char) :=
  match s with
  | '%' :: rest => return (.whole, rest)
  | ',' :: rest => readAfterSeparator ⟨.line 1, 0⟩ .whole rest
  | ';' :: rest => readAfterSeparator ⟨.dot, 0⟩ .dotToEnd rest
  | s => do
    match ← Address.read s with
    | none => return (.default, s)
    | some (first, rest) =>
      match rest.head? with
      | none => return (.one first, rest)
      | some sep =>
        if sep = ',' || sep = ';' then
          match ← Address.read (← Slice.behind rest 1) with
          | some (second, rest) => return (.two first second (sep = ';'), rest)
          | none => return (.one first, ← Slice.behind rest 1)
        else return (.one first, rest)

end RangeExpr

end LineEditor
