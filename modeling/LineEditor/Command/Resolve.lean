import LineEditor.Command.Address
import LineEditor.Command.Pattern

/-!
# Addresses in a window

What line an address names depends on the window: its dot, its last line, its labels and its text.
Line 0 stands before the first line, and whether it is of use is for the command to say; a range
never leaves the window.
-/

namespace LineEditor

/-- The lines a command is for, and how many addresses were typed. -/
structure LineRange where
  start : Nat
  stop : Nat
  given : Nat
  deriving Repr, DecidableEq

namespace View

/-- The line met after line `n`. The last line and the first are neighbours. -/
def beyond (dol : Nat) (forward : Bool) (n : Nat) : Except Breach Nat :=
  if forward then return if dol ≤ n then 1 else n + 1
  else if n ≤ 1 then return dol
  else difference n 1

/-- Looks at the lines met after line `n`, at most `count` of them, until one matches. Dot is not
looked at: there the search has been all around. -/
def searchFrom (v : View) (dot : Nat) (forward : Bool) (matcher : Matcher) :
    Nat → Nat → Query Nat
  | 0, _ => throw .patternNotFound
  | count + 1, n => do
    Query.checkInterrupt
    let n ← beyond v.window.dol forward n
    if n = dot then throw .patternNotFound
    match ← v.window.display? v.pool n with
    | some text =>
      if matcher.isMatch text then return n else v.searchFrom dot forward matcher count n
    | none => v.searchFrom dot forward matcher count n

/-- The line nearest to dot whose shown text matches, wrapping around the ends. The pattern is
remembered once it is known to be one. -/
def search (v : View) (dot : Nat) (forward : Bool) (body : List Char) : Query Nat := do
  let source ← Query.resolve body
  let matcher ← liftExcept (v.window.compile source false)
  Query.remember source
  v.searchFrom dot forward matcher v.window.dol dot

def base (v : View) (dot : Nat) : Base → Query Nat
  | .line n => return n
  | .dot => return dot
  | .dol => return v.window.dol
  | .label name =>
    match v.window.labels.get? name with
    | some n => return n
    | none => throw (.labelNotSet name)
  | .forward pattern => v.search dot true pattern
  | .backward pattern => v.search dot false pattern

def address (v : View) (dot : Nat) (a : Address) : Query Nat := do
  let n ← v.base dot a.base
  let line := Number.saturate (min n Number.maxOffset + a.offset)
  if line < 0 then throw .negativeLine
  else if v.window.dol < line.toNat then throw (.lineOutOfRange line.toNat)
  else return line.toNat

def ordered (start stop given : Nat) : Query (Option LineRange) :=
  if stop < start then throw .badRange else return some ⟨start, stop, given⟩

/-- The lines that a range names; no lines for a range that was not typed. -/
def range (v : View) : RangeExpr → Query (Option LineRange)
  | .default => return none
  | .whole => ordered (min v.window.dol 1) v.window.dol 2
  | .dotToEnd => ordered v.window.dot v.window.dol 2
  | .one a => do
    let n ← v.address v.window.dot a
    ordered n n 1
  | .two first second fromFirst => do
    let start ← v.address v.window.dot first
    let stop ← v.address (if fromFirst then start else v.window.dot) second
    ordered start stop 2

end View

end LineEditor
