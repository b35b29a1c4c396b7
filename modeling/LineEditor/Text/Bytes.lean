/-!
# Lines as bytes

A line is a run of bytes. Nothing says that it is valid UTF-8: it may hold NUL bytes and tokens of
the browsing layer.
-/

namespace LineEditor

/-- A line of text, or any other run of bytes. -/
abbrev Bytes := List UInt8

namespace Bytes

def newline : UInt8 := 10

def isDigit (b : UInt8) : Bool := 48 ≤ b && b ≤ 57

def isUpper (b : UInt8) : Bool := 65 ≤ b && b ≤ 90

def isLower (b : UInt8) : Bool := 97 ≤ b && b ≤ 122

def isLetter (b : UInt8) : Bool := isUpper b || isLower b

def toUpper (b : UInt8) : UInt8 := if isLower b then b - 32 else b

def toLower (b : UInt8) : UInt8 := if isUpper b then b + 32 else b

/-- The pieces between occurrences of `sep`, at least one. -/
def splitOn (sep : UInt8) : Bytes → List Bytes
  | [] => [[]]
  | b :: rest =>
    if b = sep then [] :: splitOn sep rest
    else
      match splitOn sep rest with
      | [] => [[b]]
      | piece :: pieces => (b :: piece) :: pieces

/-- The order of byte strings: the first difference decides, and a beginning comes first. -/
def le : Bytes → Bytes → Bool
  | [], _ => true
  | _ :: _, [] => false
  | a :: as, b :: bs => if a < b then true else if b < a then false else le as bs

end Bytes

end LineEditor
