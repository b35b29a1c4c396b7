import LineEditor.Text.Slices

/-!
# Markup tokens

The browsing layer marks the borders of hyperlinks and form fields by tokens among the bytes of a
line: a lead byte, one or more digits and a terminator. What a token means is that layer's affair.
Here a line is cut into tokens and plain bytes (`segments`); a reader sees the bracket of a token
and nothing else of it (`display`). A lead byte that starts no token is a plain byte.
-/

namespace LineEditor.Markup

/-- The byte that starts a token. -/
def lead : UInt8 := 0x80

/-- The terminators that stay visible. -/
def isBracket (b : UInt8) : Bool := b = 0x7B || b = 0x7D || b = 0x3C || b = 0x3E

/-- All terminators: the brackets, the star and the number sign. -/
def isTerminator (b : UInt8) : Bool := isBracket b || b = 0x2A || b = 0x23

/-- The digits and the terminator after a lead byte. -/
def tokenBody (s : Bytes) : Option (Bytes × UInt8) :=
  let digits := s.takeWhile Bytes.isDigit
  if digits.isEmpty then none
  else
    match s.drop digits.length with
    | t :: _ => if isTerminator t then some (digits, t) else none
    | [] => none

/-- What a line is made of. -/
inductive Segment where
  | token (digits : Bytes) (terminator : UInt8)
  | plain (b : UInt8)
  deriving Repr, DecidableEq

namespace Segment

def raw : Segment → Bytes
  | token digits t => lead :: digits ++ [t]
  | plain b => [b]

def shown : Segment → Bytes
  | token _ t => if isBracket t then [t] else []
  | plain b => [b]

def isToken : Segment → Bool
  | token _ _ => true
  | plain _ => false

end Segment

/-- The segments of a line of which `skip` bytes belong to a token already given. -/
def segmentsFrom : Nat → Bytes → List Segment
  | _, [] => []
  | skip + 1, _ :: rest => segmentsFrom skip rest
  | 0, b :: rest =>
    if b = lead then
      match tokenBody rest with
      | some (digits, t) => .token digits t :: segmentsFrom (digits.length + 1) rest
      | none => .plain b :: segmentsFrom 0 rest
    else .plain b :: segmentsFrom 0 rest

def segments (line : Bytes) : List Segment := segmentsFrom 0 line

/-- Where the tokens among segments stand, the first segment being at `start`. -/
def tokenSpans (start : Nat) : List Segment → List (Nat × Nat)
  | [] => []
  | s :: rest =>
    let stop := start + s.raw.length
    if s.isToken then (start, stop) :: tokenSpans stop rest else tokenSpans stop rest

def tokens (line : Bytes) : List (Nat × Nat) := tokenSpans 0 (segments line)

def tokenTexts (line : Bytes) : List Bytes :=
  ((segments line).filter Segment.isToken).map Segment.raw

def hasMarkup (line : Bytes) : Bool := !(tokens line).isEmpty

def display (line : Bytes) : Bytes := (segments line).flatMap Segment.shown

/-- Whether two lines carry the same tokens, byte for byte. -/
def sameTokens (before after : Bytes) : Bool := tokenTexts before == tokenTexts after

/-! ## Reading by offsets

A line that is looked at again and again is not cut into segments but read at offsets. -/

/-- How many bytes the token at offset `i` of a line takes, if one stands there. -/
def tokenAt (raw : Array UInt8) (i : Nat) : Except Breach (Option Nat) := do
  if raw[i]? ≠ some lead then return none
  let behind ← Bytes.slice raw.toList (i + 1) raw.size
  let digits := (behind.takeWhile Bytes.isDigit).length
  if digits = 0 then return none
  return if raw[i + 1 + digits]?.any isTerminator then some (digits + 2) else none

/-- Where the tokens stand from offset `i` on, behind those in `found`. There are no more of them
than bytes. -/
def readTokens (raw : Array UInt8) :
    Nat → Nat → Array (Nat × Nat) → Except Breach (Array (Nat × Nat))
  | 0, _, found => return found
  | fuel + 1, i, found =>
    if i < raw.size then do
      match ← tokenAt raw i with
      | some n => readTokens raw fuel (i + n) (found.push (i, i + n))
      | none => readTokens raw fuel (i + 1) found
    else return found

/-- The tokens of a line, byte for byte. -/
def readTexts (line : Bytes) : Except Breach (List Bytes) := do
  let spans ← readTokens line.toArray line.length 0 #[]
  spans.toList.mapM fun (start, stop) => line.slice start stop

/-- `sameTokens`, as it is found. -/
def keepsTokens (before after : Bytes) : Except Breach Bool :=
  return (← readTexts before) == (← readTexts after)

/-- What is shown of the line from offset `i` on, behind what is in `shown`. -/
def readShown (raw : Array UInt8) : Nat → Nat → Array UInt8 → Except Breach (Array UInt8)
  | 0, _, shown => return shown
  | fuel + 1, i, shown =>
    if i < raw.size then do
      match ← tokenAt raw i with
      | some n =>
        let t ← Bytes.byteAt raw (← difference (i + n) 1)
        readShown raw fuel (i + n) (if isBracket t then shown.push t else shown)
      | none => readShown raw fuel (i + 1) (shown.push (← Bytes.byteAt raw i))
    else return shown

/-- `display`, as it is found. A line without lead bytes is shown as it is. -/
def strip (line : Bytes) : Except Breach Bytes :=
  if line.contains lead then Array.toList <$> readShown line.toArray line.length 0 #[]
  else return line

end LineEditor.Markup
