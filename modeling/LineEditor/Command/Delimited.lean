import LineEditor.Command.Error
import LineEditor.Text.Slices

/-!
# Delimited texts

Patterns and replacements stand between delimiters. A backslash before the delimiter makes it part
of the text and is dropped; before anything else it stays, for the pattern or the replacement to
read. What follows the delimiter is cut off the text at an offset.
-/

namespace LineEditor

/-- Reading the line of a command. A reader may refuse it; a cut that is no cut is a breach. -/
abbrev Reading := ExceptT EditError (Except Breach)

/-- Reads within a command. -/
def liftReading (x : Reading α) : ExceptT EditError (StateT σ (Except Breach)) α := do
  liftExcept (← x.run)

/-- A text up to its delimiter, and what follows. -/
structure Delimited where
  body : List Char
  rest : List Char
  /-- False when there was no delimiter up to the end. -/
  closed : Bool
  deriving Repr, DecidableEq

namespace Delimited

def prepend (cs : List Char) (d : Delimited) : Delimited := { d with body := cs ++ d.body }

/-- Reads up to the next delimiter that no backslash precedes. -/
def scan (delim : Char) : List Char → Delimited
  | [] => ⟨[], [], false⟩
  | c :: rest =>
    if c = delim then ⟨[], rest, true⟩
    else if c = '\\' then
      match rest with
      | [] => ⟨[c], [], false⟩
      | d :: rest => (scan delim rest).prepend (if d = delim then [d] else [c, d])
    else (scan delim rest).prepend [c]

/-- Reads on where `offset` bytes of a text are read already. -/
def readFrom (text : List Char) (delim : Char) (offset : Nat) : List Char → Except Breach Delimited
  | [] => return ⟨[], [], false⟩
  | c :: rest =>
    if c = delim then return ⟨[], ← Slice.behind text (offset + c.utf8Size), true⟩
    else if c = '\\' then
      match rest with
      | [] => return ⟨[c], [], false⟩
      | d :: rest =>
        return (← readFrom text delim (offset + c.utf8Size + d.utf8Size) rest).prepend
          (if d = delim then [d] else [c, d])
    else return (← readFrom text delim (offset + c.utf8Size) rest).prepend [c]

/-- `scan`, with what follows cut off at its offset. -/
def read (delim : Char) (text : List Char) : Except Breach Delimited := readFrom text delim 0 text

/-- Refuses letters, digits, white space and the backslash as delimiters. -/
def check (c : Char) : Except EditError Char :=
  if Unicode.isAlphanumeric c || Unicode.isSpace c || c = '\\' then throw (.badDelimiter c)
  else return c

/-- Reads the delimiter at the front and the text behind it. -/
def first (tail : List Char) : Except EditError (Char × Delimited) :=
  match tail with
  | [] => throw (.badDelimiter '\n')
  | c :: rest => return (← check c, scan c rest)

/-- `first`, with the cut made. -/
def readFirst (tail : List Char) : Reading (Char × Delimited) :=
  match tail with
  | [] => throw (.badDelimiter '\n')
  | c :: rest => return (← liftExcept (check c), ← read c rest)

end Delimited

end LineEditor
