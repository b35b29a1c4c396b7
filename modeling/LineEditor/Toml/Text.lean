/-!
# TOML strings

Strings between double quotes have escapes, those between single quotes have none; three quotes let
a string run over several lines.
-/

namespace LineEditor.Toml

namespace Text

/-- Characters that may not stand in a string or a comment. -/
def isControl (c : Char) : Bool := (c.toNat < 32 && c ≠ '\t') || c.toNat = 127

def hexDigit? (c : Char) : Option Nat :=
  if c.isDigit then some (c.toNat - 48)
  else if 'a' ≤ c && c ≤ 'f' then some (c.toNat - 87)
  else if 'A' ≤ c && c ≤ 'F' then some (c.toNat - 55)
  else none

def scalar? (n : Nat) : Option Char := if n.isValidChar then some (Char.ofNat n) else none

def hex? (n : Nat) (s : List Char) : Option Char := do
  let ds ← (s.take n).mapM hexDigit?
  if ds.length = n then scalar? (ds.foldl (fun n d => 16 * n + d) 0) else none

/-- The character of an escape, and how many characters it takes behind the backslash. -/
def escape? (s : List Char) : Option (Char × Nat) :=
  match s with
  | 'b' :: _ => some ('\x08', 1)
  | 't' :: _ => some ('\t', 1)
  | 'n' :: _ => some ('\n', 1)
  | 'f' :: _ => some ('\x0c', 1)
  | 'r' :: _ => some ('\r', 1)
  | 'e' :: _ => some ('\x1b', 1)
  | '"' :: _ => some ('"', 1)
  | '\\' :: _ => some ('\\', 1)
  | 'x' :: s => (hex? 2 s).map fun c => (c, 3)
  | 'u' :: s => (hex? 4 s).map fun c => (c, 5)
  | 'U' :: s => (hex? 8 s).map fun c => (c, 9)
  | _ => none

def cons (c : Char) (r : Option (List Char × List Char)) : Option (List Char × List Char) :=
  r.map fun (text, rest) => (c :: text, rest)

/-- A string on one line up to its closing quote, and what follows; `skip` characters belong to an
escape already read. -/
def line? (quote : Char) (escapes : Bool) : Nat → List Char → Option (List Char × List Char)
  | _, [] => none
  | skip + 1, _ :: rest => line? quote escapes skip rest
  | 0, c :: rest =>
    if c = quote then some ([], rest)
    else if c = '\\' && escapes then
      match escape? rest with
      | some (d, n) => cons d (line? quote escapes n rest)
      | none => none
    else if isControl c then none
    else cons c (line? quote escapes 0 rest)

def startsLine (s : List Char) : Bool :=
  match s with
  | '\n' :: _ | '\r' :: '\n' :: _ => true
  | _ => false

/-- The number of characters that a backslash at the end of a line takes out: all white space from
there on. -/
def lineEnd? (s : List Char) : Option Nat :=
  if startsLine (s.dropWhile fun c => c = ' ' || c = '\t') then
    some (s.takeWhile fun c => c = ' ' || c = '\t' || c = '\n' || c = '\r').length
  else none

def quotes (quote : Char) (s : List Char) : Nat := (s.takeWhile (· = quote)).length

/-- A string over several lines up to its closing quotes, and what follows. Up to two quotes may
stand before the closing three. -/
def lines? (quote : Char) (escapes : Bool) : Nat → List Char → Option (List Char × List Char)
  | _, [] => none
  | skip + 1, _ :: rest => lines? quote escapes skip rest
  | 0, c :: rest =>
    if c = quote && 2 ≤ quotes quote rest then
      let more := quotes quote rest - 2
      if more ≤ 2 then some (List.replicate more quote, rest.drop (more + 2)) else none
    else if c = '\\' && escapes then
      match lineEnd? rest, escape? rest with
      | some n, _ => lines? quote escapes n rest
      | none, some (d, n) => cons d (lines? quote escapes n rest)
      | none, none => none
    else if c = '\n' || (c = '\r' && startsLine (c :: rest)) then
      cons c (lines? quote escapes 0 rest)
    else if isControl c then none
    else cons c (lines? quote escapes 0 rest)

def dropNewline (s : List Char) : List Char :=
  match s with
  | '\n' :: s => s
  | '\r' :: '\n' :: s => s
  | s => s

def afterQuote? (quote : Char) (s : List Char) : Option (List Char × List Char) :=
  match s with
  | a :: b :: s' =>
    if a = quote && b = quote then lines? quote (quote = '"') 0 (dropNewline s')
    else line? quote (quote = '"') 0 s
  | _ => line? quote (quote = '"') 0 s

end Text

end LineEditor.Toml
