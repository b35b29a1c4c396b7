import LineEditor.Text.Utf8

/-!
# Unambiguous listing

The listing of a line shows every byte: a tab, a backspace and a backslash as letter escapes, other
control characters and bytes of no character in octal, and a dollar sign at the end.
-/

namespace LineEditor.Listing

/-- Three octal digits after a backslash. -/
def octal (n : Nat) : List Char :=
  ['\\', Char.ofNat (48 + n / 64 % 8), Char.ofNat (48 + n / 8 % 8), Char.ofNat (48 + n % 8)]

def listChar (c : Char) : List Char :=
  if c = '\t' then ['\\', 't']
  else if c.toNat = 8 then ['\\', 'b']
  else if c = '\\' then ['\\', '\\']
  else if c.toNat < 32 || c.toNat = 127 then octal c.toNat
  else [c]

def listPiece : Utf8.Piece → List Char
  | .char c => listChar c
  | .bad bytes => bytes.flatMap fun b => octal b.toNat

def chars (line : Bytes) : List Char :=
  (Utf8.pieces line).flatMap listPiece ++ ['$']

def text (line : Bytes) : String := String.ofList (chars line)

end LineEditor.Listing
