import LineEditor.Regex.Fault
import LineEditor.Regex.Parser.Blanks
import LineEditor.Regex.Tree

/-!
# Openings of groups

What stands behind an opening parenthesis: a name, flags, or nothing.
-/

namespace LineEditor.Regex

def flag? : Char → Option Flag
  | 'i' => some .ignoreCase
  | 'm' => some .multiLine
  | 's' => some .dotAll
  | 'U' => some .swapGreed
  | 'u' => some .unicode
  | 'R' => some .crlf
  | 'x' => some .verbose
  | _ => none

/-- Flags up to the colon or the parenthesis that ends them, which is left to be read. `changes`
holds those so far, `negated` says that a minus sign has been read and `dangling` that it was the
last thing read. -/
def readFlags (changes : FlagChanges) (negated dangling : Bool) :
    Chars → Except Fault (FlagChanges × Chars)
  | [] => .error .flagExpected
  | c :: cs =>
    if c == ':' || c == ')' then
      if dangling then .error .flagDangling else .ok (changes, c :: cs)
    else if c == '-' then
      if negated then .error .flagNegationRepeated else readFlags changes true true cs
    else
      match flag? c with
      | none => .error .flagUnrecognized
      | some f =>
        if (changes.value? f).isSome then .error .flagDuplicate
        else readFlags (changes ++ [(f, !negated)]) negated false cs

/-- A character that the name of a group may have, at its beginning or later. -/
def isNameChar (first : Bool) (c : Char) : Bool :=
  if first then c == '_' || Unicode.isAlphabetic c
  else c == '_' || c == '.' || c == '[' || c == ']' || Unicode.isAlphanumeric c

/-- The name of a group up to the angle bracket that ends it. -/
def readName (first : Bool) : Chars → Except Fault (Chars × Chars)
  | [] => .error .groupNameUnclosed
  | c :: cs =>
    if c == '>' then .ok ([], cs)
    else if isNameChar first c then do
      let (name, rest) ← readName false cs
      return (c :: name, rest)
    else .error .groupNameInvalid

/-- What an opening parenthesis opens. -/
inductive Opening where
  | directive (changes : FlagChanges)
  | named (name : Chars)
  | numbered
  | plain (changes : FlagChanges)

def isLookAround : Chars → Bool
  | '?' :: '=' :: _ | '?' :: '!' :: _ | '?' :: '<' :: '=' :: _ | '?' :: '<' :: '!' :: _ => true
  | _ => false

def readOpening (verbose : Bool) (cs : Chars) : Except Fault (Opening × Chars) :=
  let cs := skipIgnored verbose cs
  let name (cs : Chars) : Except Fault (Opening × Chars) := do
    let (name, rest) ← readName true cs
    if name.isEmpty then .error .groupNameEmpty else return (.named name, rest)
  if isLookAround cs then .error .lookAround
  else
    match cs with
    | '?' :: 'P' :: '<' :: rest => name rest
    | '?' :: '<' :: rest => name rest
    | '?' :: [] => .error .groupUnclosed
    | '?' :: rest => do
      let (changes, rest) ← readFlags [] false false rest
      match rest with
      | ')' :: rest =>
        if changes.isEmpty then .error .repetitionMissing else return (.directive changes, rest)
      | _ => return (.plain changes, rest.drop 1)
    | cs => .ok (.numbered, cs)

end LineEditor.Regex
