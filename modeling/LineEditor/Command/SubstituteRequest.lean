import LineEditor.Command.Basic
import LineEditor.Substitution.Basic

/-!
# Requests to substitute

The tail of a substitution: a pattern, a replacement and flags between delimiters. The flags are `g`
for all matches, a number for the match to replace, `i` to ignore case and a letter to print the
result.
-/

namespace LineEditor

structure SubstituteFlags where
  which : Option Occurrence
  ignoreCase : Bool
  print : Option PrintStyle
  deriving Repr, DecidableEq

namespace SubstituteFlags

/-- Flags read so far, and the digits among them in order. -/
structure Partial where
  all : Bool
  ignoreCase : Bool
  print : Option PrintStyle
  digits : List Char
  deriving Repr, DecidableEq

def Partial.add? (p : Partial) (c : Char) : Option Partial :=
  if c = 'g' && !p.all then some { p with all := true }
  else if c = 'i' then some { p with ignoreCase := true }
  else if c.isDigit then some { p with digits := p.digits ++ [c] }
  else
    match PrintStyle.ofLetter? c, p.print with
    | some style, none => some { p with print := some style }
    | _, _ => none

/-- The flags read, if `g` and a number are not both there and the number is one of a match. -/
def Partial.finish? (p : Partial) : Option SubstituteFlags :=
  if p.digits.isEmpty then some ⟨if p.all then some .all else none, p.ignoreCase, p.print⟩
  else if p.all then none
  else
    match Number.ofDigits? Number.maxCount p.digits with
    | some (n + 1) => some ⟨some (.nth (n + 1)), p.ignoreCase, p.print⟩
    | _ => none

/-- The flags in a text, which may have white space around them. -/
def parse? (text : List Char) : Option SubstituteFlags := do
  (← (Unicode.trim text).foldlM Partial.add? ⟨false, false, none, []⟩).finish?

end SubstituteFlags

/-- A substitution to be made in each line of a range. -/
structure SubstituteRequest where
  matcher : Matcher
  template : Bytes
  which : Occurrence
  print : Option PrintStyle

namespace SubstituteRequest

/-- The flags behind the replacement; without its last delimiter there are none. -/
def flags (replacement : Delimited) : Except EditError SubstituteFlags :=
  let text := if replacement.closed then replacement.rest else []
  match SubstituteFlags.parse? text with
  | some flags => return flags
  | none => throw (.badFlags text)

/-- The replacement that a text stands for: a per cent sign alone stands for the one remembered. -/
def resolveTemplate (body : List Char) : Query (List Char) := do
  if body = ['%'] then
    match (← get).replacement with
    | some template => return template
    | none => throw .noRememberedReplacement
  else return body

/-- Reads a request. Pattern and replacement are remembered once nothing is wrong with it. -/
def parse (v : View) (tail : List Char) : Query SubstituteRequest := do
  let (delim, pattern) ← liftReading (Delimited.readFirst tail)
  if !pattern.closed then throw (.malformed .missingReplacement)
  let replacement ← Delimited.read delim pattern.rest
  let flags ← liftExcept (flags replacement)
  let source ← Query.resolve pattern.body
  let template ← resolveTemplate replacement.body
  let matcher ← liftExcept (v.window.compile source flags.ignoreCase)
  let which := flags.which.getD (.nth 1)
  if Substitution.isAmbiguous matcher which then throw .emptyMatchRepeat
  modify fun r => { r with search := some source, replacement := some template }
  return ⟨matcher, Utf8.ofChars template, which, flags.print⟩

/-- What becomes of a line: its pieces between newlines, or nothing if it has no match to replace.
No token of the browsing layer may change. -/
def revise (r : SubstituteRequest) (limit : Nat) (line : Bytes) :
    Query (Option (List Bytes)) := do
  match ← Substitution.apply r.matcher r.template r.which limit line with
  | .unchanged => return none
  | .tooLong => throw (.resultTooLong limit)
  | .replaced new =>
    if ← Markup.keepsTokens line new then return some (Bytes.splitOn Bytes.newline new)
    else throw .markupAltered

def reviseAll (r : SubstituteRequest) (limit : Nat) :
    List (Nat × Bytes) → Query (List (Nat × List Bytes))
  | [] => return []
  | (n, line) :: rest => do
    let new ← r.revise limit line
    let changes ← r.reviseAll limit rest
    match new with
    | some lines => return (n, lines) :: changes
    | none => return changes

end SubstituteRequest

end LineEditor
