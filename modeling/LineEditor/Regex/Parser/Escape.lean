import LineEditor.Regex.Fault
import LineEditor.Regex.Parser.Blanks
import LineEditor.Regex.Tree

/-!
# Escapes

What a backslash makes of the text behind it: a character by its code, a shorthand class, a property
of characters or an assertion.
-/

namespace LineEditor.Regex

/-- What an escape, or a character in brackets, can stand for. -/
inductive Atom where
  | literal (l : Literal)
  | assertion (a : Assertion)
  | shorthand (c : Shorthand) (negated : Bool)
  | property (p : PropertyName) (negated : Bool)
  deriving Repr, DecidableEq

def hexValue? (c : Char) : Option Nat :=
  if '0' ≤ c && c ≤ '9' then some (c.toNat - 48)
  else if 'a' ≤ c && c ≤ 'f' then some (c.toNat - 87)
  else if 'A' ≤ c && c ≤ 'F' then some (c.toNat - 55)
  else none

def scalar? (n : Nat) : Except Fault Char :=
  if h : n.isValidChar then .ok (Char.ofNatAux n h) else .error .hexNotScalar

def readHexDigits (verbose : Bool) (acc : Nat) : Nat → Chars → Except Fault (Nat × Chars)
  | 0, cs => .ok (acc, cs)
  | _ + 1, [] => .error .escapeUnfinished
  | n + 1, c :: cs =>
    match hexValue? c with
    | some d => readHexDigits verbose (acc * 16 + d) n (skipIgnored verbose cs)
    | none => .error .hexDigitInvalid

/-- Hexadecimal digits up to a closing brace; `none` when there are none. -/
def readHexBrace (verbose : Bool) (acc : Option Nat) :
    Nat → Chars → Except Fault (Option Nat × Chars)
  | fuel + 1, c :: cs =>
    if c == '\x7d' then .ok (acc, skipIgnored verbose cs)
    else
      match hexValue? c with
      | some d =>
        readHexBrace verbose (some (acc.getD 0 * 16 + d)) fuel (skipIgnored verbose cs)
      | none => .error .hexDigitInvalid
  | _, _ => .error .escapeUnfinished

/-- A hexadecimal literal after its letter: so many digits, or any number in braces. -/
def readHex (verbose : Bool) (digits : Nat) (cs : Chars) : Except Fault (Literal × Chars) :=
  match skipIgnored verbose cs with
  | [] => .error .escapeUnfinished
  | '\x7b' :: rest => do
    let (value, rest) ← readHexBrace verbose none (rest.length + 1) (skipIgnored verbose rest)
    match value with
    | none => .error .hexEmpty
    | some n => return (⟨← scalar? n, false⟩, rest)
  | cs => do
    let (n, rest) ← readHexDigits verbose 0 digits cs
    return (⟨← scalar? n, digits == 2⟩, rest)

/-- The characters up to a closing brace, blanks left out where they mean nothing. -/
def readBraced (verbose : Bool) : Nat → Chars → Option (Chars × Chars)
  | fuel + 1, c :: cs =>
    if c == '\x7d' then some ([], cs)
    else
      (readBraced verbose fuel (skipIgnored verbose cs)).map fun (name, rest) => (c :: name, rest)
  | _, _ => none

/-- Cuts a text at the first place where a two-character or one-character mark stands. -/
def cutAt (mark : Chars) : Chars → Option (Chars × Chars)
  | [] => none
  | c :: cs =>
    if mark.isPrefixOf (c :: cs) then some ([], (c :: cs).drop mark.length)
    else (cutAt mark cs).map fun (before, after) => (c :: before, after)

/-- A property in braces: `name`, `name!=value`, `name:value` or `name=value`. -/
def propertyName (text : Chars) : PropertyName :=
  match cutAt ['!', '='] text with
  | some (n, v) => .valued n v
  | none =>
    match cutAt [':'] text with
    | some (n, v) => .valued n v
    | none =>
      match cutAt ['='] text with
      | some (n, v) => .valued n v
      | none => .alone text

/-- A property after its letter: one letter, or a name in braces. -/
def readProperty (verbose : Bool) (negated : Bool) (cs : Chars) : Except Fault (Atom × Chars) :=
  match skipIgnored verbose cs with
  | [] => .error .escapeUnfinished
  | '\x7b' :: rest =>
    match readBraced verbose (rest.length + 1) (skipIgnored verbose rest) with
    | some (name, rest) => .ok (.property (propertyName name) negated, rest)
    | none => .error .escapeUnfinished
  | '\\' :: _ => .error .propertyNameInvalid
  | c :: rest => .ok (.property (.alone [c]) negated, skipIgnored verbose rest)

def isBoundaryLetter (c : Char) : Bool :=
  ('a' ≤ c && c ≤ 'z') || ('A' ≤ c && c ≤ 'Z') || c == '-'

/-- The letters at the front, blanks left out where they mean nothing. -/
def readBoundaryLetters (verbose : Bool) : Nat → Chars → Chars × Chars
  | fuel + 1, c :: cs =>
    if isBoundaryLetter c then
      let (name, rest) := readBoundaryLetters verbose fuel (skipIgnored verbose cs)
      (c :: name, rest)
    else ([], c :: cs)
  | _, cs => ([], cs)

/-- The kind of word boundary in the braces that may follow `\b`. Braces that start with no letter
are left for a counted repetition. -/
def readBoundary (verbose : Bool) (cs : Chars) : Except Fault (Assertion × Chars) :=
  match cs with
  | '\x7b' :: rest =>
    match skipIgnored verbose rest with
    | [] => .error .boundaryUnfinished
    | c :: inner =>
      if isBoundaryLetter c then
        match readBoundaryLetters verbose (inner.length + 1) (c :: inner) with
        | (name, '\x7d' :: rest) =>
          match String.ofList name with
          | "start" => .ok (.wordStart, rest)
          | "end" => .ok (.wordEnd, rest)
          | "start-half" => .ok (.wordStartHalf, rest)
          | "end-half" => .ok (.wordEndHalf, rest)
          | _ => .error .boundaryUnrecognized
        | _ => .error .boundaryUnclosed
      else .ok (.wordBoundary, cs)
  | _ => .ok (.wordBoundary, cs)

/-- Characters that stand for themselves after a backslash: all of ASCII but letters, digits and
angle brackets. -/
def isEscapable (c : Char) : Bool :=
  c.toNat < 128 && !c.isAlphanum && c != '<' && c != '>'

def readEscape (verbose : Bool) : Chars → Except Fault (Atom × Chars)
  | [] => .error .escapeUnfinished
  | c :: cs =>
    let plain (c : Char) : Except Fault (Atom × Chars) := .ok (.literal ⟨c, false⟩, cs)
    let hex (digits : Nat) : Except Fault (Atom × Chars) := do
      let (l, rest) ← readHex verbose digits cs
      return (.literal l, rest)
    if c.isDigit then .error .backreference
    else if isEscapable c then plain c
    else
      match c with
      | 'x' => hex 2
      | 'u' => hex 4
      | 'U' => hex 8
      | 'p' => readProperty verbose false cs
      | 'P' => readProperty verbose true cs
      | 'd' => .ok (.shorthand .digit false, cs)
      | 'D' => .ok (.shorthand .digit true, cs)
      | 's' => .ok (.shorthand .space false, cs)
      | 'S' => .ok (.shorthand .space true, cs)
      | 'w' => .ok (.shorthand .word false, cs)
      | 'W' => .ok (.shorthand .word true, cs)
      | 'a' => plain '\x07'
      | 'f' => plain '\x0c'
      | 't' => plain '\t'
      | 'n' => plain '\n'
      | 'r' => plain '\r'
      | 'v' => plain '\x0b'
      | 'A' => .ok (.assertion .startText, cs)
      | 'z' => .ok (.assertion .endText, cs)
      | 'b' => do
        let (a, rest) ← readBoundary verbose cs
        return (.assertion a, rest)
      | 'B' => .ok (.assertion .notWordBoundary, cs)
      | '<' => .ok (.assertion .wordStart, cs)
      | '>' => .ok (.assertion .wordEnd, cs)
      | _ => .error .escapeUnrecognized

end LineEditor.Regex
