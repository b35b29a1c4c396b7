import LineEditor.Regex.Search
import LineEditor.Text.Slices

/-!
# Replacements

A replacement is a template over the groups of a match: a dollar sign and a digit stand for a group,
a backslash for control characters, for bytes in octal, and for any other byte itself. Three words
instead change the case of what was matched.
-/

namespace LineEditor

open Regex (Match)

inductive CaseShift where
  | lower
  | upper
  /-- Each word starts with a capital. -/
  | mixed
  deriving Repr, DecidableEq

namespace CaseShift

/-- Capitalizes words; `atStart` says whether a letter would start one. An apostrophe does not end a
word. -/
def capitalize (atStart : Bool) : Bytes → Bytes
  | [] => []
  | b :: rest =>
    if Bytes.isLetter b then
      (if atStart then Bytes.toUpper b else Bytes.toLower b) :: capitalize false rest
    else b :: capitalize (!(Bytes.isDigit b) && b != 39) rest

def apply : CaseShift → Bytes → Bytes
  | lower, s => s.map Bytes.toLower
  | upper, s => s.map Bytes.toUpper
  | mixed, s => capitalize true s

end CaseShift

namespace Template

/-- A part of a template. -/
inductive Part where
  | literal (b : UInt8)
  | group (i : Nat)
  deriving Repr, DecidableEq

def isOctal (b : UInt8) : Bool := 48 ≤ b && b ≤ 55

/-- The byte written by octal digits; higher bits are dropped. -/
def octal (digits : Bytes) : UInt8 :=
  (digits.foldl (fun (n : Nat) d => 8 * n + (d.toNat - 48)) 0).toUInt8

/-- What a backslash makes of a byte that is no octal digit. -/
def escaped (b : UInt8) : UInt8 :=
  if b = 110 then 10
  else if b = 116 then 9
  else if b = 98 then 8
  else if b = 114 then 13
  else if b = 102 then 12
  else if b = 97 then 7
  else b

/-- The part at offset `i` of a template, and how many bytes behind the first belong to it. -/
def partAt (template : Array UInt8) (i : Nat) : Except Breach (Part × Nat) := do
  let b ← Bytes.byteAt template i
  if b = 36 && template[i + 1]?.any Bytes.isDigit then
    let d ← Bytes.byteAt template (i + 1)
    return (.group (← difference d.toNat 48), 1)
  else if b = 92 && i + 1 < template.size then
    let c ← Bytes.byteAt template (i + 1)
    if isOctal c then
      let digits := c :: ((template.toList.drop (i + 2)).take 2).takeWhile isOctal
      return (.literal (octal digits), digits.length)
    else return (.literal (escaped c), 1)
  else return (.literal b, 0)

/-- The parts of a template from offset `i` on. There are no more of them than bytes. -/
def readParts (template : Array UInt8) : Nat → Nat → Except Breach (List Part)
  | 0, _ => return []
  | fuel + 1, i =>
    if i < template.size then do
      let (part, more) ← partAt template i
      return part :: (← readParts template fuel (i + 1 + more))
    else return []

/-- What a part stands for. A group that the match does not have stands for nothing. -/
def Part.expand (line : Bytes) (m : Match) : Part → Except Breach Bytes
  | literal b => return [b]
  | group i =>
    match m.group? i with
    | some (start, stop) => line.slice start stop
    | none => return []

def expand (template line : Bytes) (m : Match) : Except Breach Bytes := do
  let parts ← readParts template.toArray template.length 0
  return (← parts.mapM (Part.expand line m)).flatten

def caseShift? (template : Bytes) : Option CaseShift :=
  if template = [108, 99] then some .lower
  else if template = [117, 99] then some .upper
  else if template = [109, 99] then some .mixed
  else none

def replacement (template line : Bytes) (m : Match) : Except Breach Bytes :=
  match caseShift? template with
  | some shift => return shift.apply (← line.slice m.start m.stop)
  | none => expand template line m

end Template

end LineEditor
