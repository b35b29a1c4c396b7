import LineEditor.Regex.Node
import LineEditor.Unicode.Classes

/-!
# Places in a line

A place is given by the text before it, read backwards, and the text after it. Whether a condition
holds there depends on the characters next to it. Where words are those of Unicode, a side that is
not well-formed UTF-8 has no character: it counts as no word for a boundary, but no condition that
speaks of the absence of a boundary holds beside it.
-/

namespace LineEditor.Regex

open LineEditor.Unicode (CodeSet)

/-- What stands on one side of a place. -/
inductive Side where
  | nothing
  | char (code : Nat)
  | broken
  deriving Repr, DecidableEq

def sideAfter (after : Bytes) : Side :=
  match after with
  | [] => .nothing
  | _ :: _ =>
    match Utf8.decode after with
    | some (code, _) => .char code
    | none => .broken

/-- The last bytes before a place, back to one that can start a sequence, four at most. -/
def lastSequence : Nat → Bytes → Bytes → Bytes
  | 0, _, acc => acc
  | _ + 1, [], acc => acc
  | n + 1, b :: before, acc =>
    if Utf8.isTail b then lastSequence n before (b :: acc) else b :: acc

def sideBefore (before : Bytes) : Side :=
  match before with
  | [] => .nothing
  | _ :: _ =>
    match Utf8.decode (lastSequence 4 before []) with
    | some (code, _) => .char code
    | none => .broken

/-- The characters of a word where words are those of ASCII. -/
def isWordByte (b : UInt8) : Bool := Bytes.isLetter b || Bytes.isDigit b || b = 95

namespace Side

def isWord : Side → Bool
  | char code => Unicode.wordSet.contains code
  | _ => false

def isWhole : Side → Bool
  | broken => false
  | _ => true

end Side

def startsWith (b : UInt8) (s : Bytes) : Bool := s.head? == some b

/-- Whether a word stands before a place, and whether one stands after it. -/
def words (unicode : Bool) (before after : Bytes) : Bool × Bool :=
  if unicode then ((sideBefore before).isWord, (sideAfter after).isWord)
  else (before.head?.any isWordByte, after.head?.any isWordByte)

/-- Whether both sides of a place are whole characters, where that matters. -/
def wholeSides (unicode : Bool) (before after : Bytes) : Bool :=
  !unicode || ((sideBefore before).isWhole && (sideAfter after).isWhole)

def Look.holds (before after : Bytes) : Look → Bool
  | start => before.isEmpty
  | stop => after.isEmpty
  | startLine => before.isEmpty || startsWith 10 before
  | stopLine => after.isEmpty || startsWith 10 after
  | startLineCrlf =>
    before.isEmpty || startsWith 10 before || (startsWith 13 before && !startsWith 10 after)
  | stopLineCrlf =>
    after.isEmpty || startsWith 13 after || (startsWith 10 after && !startsWith 13 before)
  | boundary u => (words u before after).1 != (words u before after).2
  | notBoundary u =>
    wholeSides u before after && (words u before after).1 == (words u before after).2
  | wordStart u => !(words u before after).1 && (words u before after).2
  | wordEnd u => (words u before after).1 && !(words u before after).2
  | wordStartHalf u => (!u || (sideBefore before).isWhole) && !(words u before after).1
  | wordEndHalf u => (!u || (sideAfter after).isWhole) && !(words u before after).2

end LineEditor.Regex
