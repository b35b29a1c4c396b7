import LineEditor.Unicode.Classes

/-!
# Quotation in messages

A message quotes what was typed so that it stays on one line and shows every character: control
characters by a letter, the quote and the backslash by a backslash, and what would not show by its
code point.
-/

namespace LineEditor.Quoted

def hex (n : Nat) : List Char := Nat.toDigits 16 n

def codePoint (c : Char) : List Char :=
  ['\\', 'u', '\x7b'] ++ hex c.toNat ++ ['\x7d']

def escape (mark c : Char) : List Char :=
  if c = '\t' then ['\\', 't']
  else if c = '\r' then ['\\', 'r']
  else if c = '\n' then ['\\', 'n']
  else if c.toNat = 0 then ['\\', '0']
  else if c = '\\' || c = mark then ['\\', c]
  else if Unicode.isPrintable c then [c]
  else codePoint c

def char (c : Char) : String :=
  String.ofList ('\'' :: escape '\'' c ++ ['\''])

def string (s : List Char) : String :=
  String.ofList ('"' :: s.flatMap (escape '"') ++ ['"'])

end LineEditor.Quoted
