import LineEditor.Text.Bytes

/-!
# UTF-8

A byte string is read as characters and runs of bytes that belong to none. Such a run is as long as
a well-formed sequence could have been followed: each becomes one replacement character when text is
shown.
-/

namespace LineEditor.Utf8

def ofChars (s : List Char) : Bytes := s.flatMap String.utf8EncodeChar

def ofString (s : String) : Bytes := ofChars s.toList

def isTail (b : UInt8) : Bool := 0x80 ≤ b && b ≤ 0xBF

/-- The length of the sequence that a first byte announces. -/
def announced (b : UInt8) : Option Nat :=
  if b < 0x80 then some 1
  else if b < 0xC2 then none
  else if b < 0xE0 then some 2
  else if b < 0xF0 then some 3
  else if b < 0xF5 then some 4
  else none

/-- Whether `c` may follow the first byte `b`: overlong forms, surrogates and code points past the
last one are ruled out here. -/
def isSecond (b c : UInt8) : Bool :=
  if b = 0xE0 then 0xA0 ≤ c && c ≤ 0xBF
  else if b = 0xED then 0x80 ≤ c && c ≤ 0x9F
  else if b = 0xF0 then 0x90 ≤ c && c ≤ 0xBF
  else if b = 0xF4 then 0x80 ≤ c && c ≤ 0x8F
  else isTail c

def tailBits (b : UInt8) : Nat := b.toNat - 0x80

/-- The code point at the front and the number of its bytes. -/
def decode : Bytes → Option (Nat × Nat)
  | [] => none
  | b :: rest =>
    match announced b, rest with
    | some 1, _ => some (b.toNat, 1)
    | some 2, c :: _ =>
      if isSecond b c then some ((b.toNat - 0xC0) * 64 + tailBits c, 2) else none
    | some 3, c :: d :: _ =>
      if isSecond b c && isTail d then
        some (((b.toNat - 0xE0) * 64 + tailBits c) * 64 + tailBits d, 3)
      else none
    | some 4, c :: d :: e :: _ =>
      if isSecond b c && isTail d && isTail e then
        some ((((b.toNat - 0xF0) * 64 + tailBits c) * 64 + tailBits d) * 64 + tailBits e, 4)
      else none
    | _, _ => none

/-- The number of bytes at the front that no character can use, when `decode` finds none there. -/
def badLength : Bytes → Nat
  | b :: c :: rest =>
    match announced b with
    | some 3 => if isSecond b c then 2 else 1
    | some 4 =>
      if isSecond b c then
        match rest with
        | d :: _ => if isTail d then 3 else 2
        | [] => 2
      else 1
    | _ => 1
  | _ => 1

/-- What a byte string is made of. -/
inductive Piece where
  | char (c : Char)
  | bad (bytes : Bytes)
  deriving Repr, DecidableEq

def firstPiece (s : Bytes) : Piece × Nat :=
  match decode s with
  | some (code, n) => (.char (Char.ofNat code), n)
  | none => (.bad (s.take (badLength s)), badLength s)

/-- The pieces of a byte string of which `skip` bytes belong to a piece already given. -/
def piecesFrom : Nat → Bytes → List Piece
  | _, [] => []
  | skip + 1, _ :: rest => piecesFrom skip rest
  | 0, b :: rest =>
    let (piece, n) := firstPiece (b :: rest)
    piece :: piecesFrom (n - 1) rest

def pieces (s : Bytes) : List Piece := piecesFrom 0 s

/-- The characters of a byte string, one replacement character for each run that holds none. -/
def lossyChars (s : Bytes) : List Char :=
  (pieces s).map fun
    | .char c => c
    | .bad _ => Char.ofNat 0xFFFD

def lossy (s : Bytes) : String := String.ofList (lossyChars s)

def Piece.char? : Piece → Option Char
  | .char c => some c
  | .bad _ => none

def toString? (s : Bytes) : Option String :=
  ((pieces s).mapM Piece.char?).map String.ofList

end LineEditor.Utf8
