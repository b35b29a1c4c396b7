import LineEditor.Command.Report
import LineEditor.Command.SubstituteRequest
import LineEditor.Text.Listing

/-!
# Commands on lines

The commands that a global command can run. Each is first planned: the plan looks at the window,
finds every error there is, and says what is to be done. Carrying out a plan cannot fail, so a
command that is refused has changed nothing.
-/

namespace LineEditor

def PrintStyle.render (style : PrintStyle) (n : Nat) (shown : Bytes) : String :=
  match style with
  | plain => Utf8.lossy shown
  | numbered => toString n ++ "\t" ++ Utf8.lossy shown
  | listed => Listing.text shown

/-- What a command on lines comes to. -/
inductive Plan where
  /-- Lines to print, and perhaps a new current line. -/
  | look (dot : Option Nat) (output : List String)
  | label (name : Char) (line : Nat)
  /-- An edit; afterwards the current line may be printed. -/
  | edit (e : Edit) (shapeChanged : Bool) (print : Option PrintStyle)
  deriving Repr, DecidableEq

namespace View

def render (v : View) (n : Nat) (style : PrintStyle) : Except Breach (List String) := do
  match ← v.window.display? v.pool n with
  | some shown => return [style.render n shown]
  | none => return []

/-- A plan that only moves to line `n`, and prints it if asked to. -/
def planGoto (v : View) (n : Nat) (print : Option PrintStyle) : Query Plan := do
  match print with
  | some style => return .look (some n) (← v.render n style)
  | none => return .look (some n) []

def planPrint (v : View) (style : PrintStyle) (range : LineRange) (tail : List Char) :
    Query Plan := do
  liftExcept (noTail style.letter tail)
  -- room is made for one line of output each
  let _ ← difference (range.stop + 1) range.start
  Query.checkInterrupt
  let lines ← v.window.shownLines v.pool range.start range.stop
  return .look (some range.stop) (lines.map fun (n, shown) => style.render n shown)

def planLineNumber (range : LineRange) (tail : List Char) : Query Plan := do
  liftExcept (noTail LineCommand.lineNumber.letter tail)
  return .look none [toString range.stop]

def planDelete (range : LineRange) (tail : List Char) : Query Plan := do
  let print ← liftExcept (printSuffix LineCommand.delete.letter tail)
  return .edit (.delete range.start range.stop) true print

/-- Joins lines into one, with a space between them if `spaced`. -/
def planJoin (v : View) (spaced : Bool) (range : LineRange) (tail : List Char) : Query Plan := do
  let print ← liftExcept (printSuffix (LineCommand.join spaced).letter tail)
  if range.start = range.stop then v.planGoto range.start print
  else
    let texts ← v.window.texts v.pool range.start range.stop
    let joined := List.intercalate (if spaced then [32] else []) texts
    if v.limits.lineLength < joined.length then throw (.resultTooLong v.limits.lineLength)
    return .edit (.replace range.start range.stop [joined]) true print

/-- The destination of lines to be moved or copied, and how to print the result. -/
def destination (v : View) (c : LineCommand) (tail : List Char) :
    Query (Nat × Option PrintStyle) := do
  match ← liftReading (Address.read (Unicode.trimStart tail)) with
  | none => throw .missingAddress
  | some (address, rest) =>
    let print ← liftExcept (printSuffix c.letter rest)
    return (← v.address v.window.dot address, print)

def planMove (v : View) (range : LineRange) (tail : List Char) : Query Plan := do
  let (dest, print) ← v.destination .move tail
  if range.start ≤ dest && dest < range.stop then throw .destinationInRange
  if dest = range.stop || dest + 1 = range.start then v.planGoto range.stop print
  else return .edit (.move range.start range.stop dest) true print

def planCopy (v : View) (range : LineRange) (tail : List Char) : Query Plan := do
  let (dest, print) ← v.destination .copy tail
  let behind ← difference range.stop range.start
  liftExcept (v.checkCapacity (behind + 1))
  return .edit (.copy range.start range.stop dest) true print

def planLabel (range : LineRange) (tail : List Char) : Query Plan :=
  match Unicode.trim tail with
  | [] => throw (.badLabel ' ')
  | [c] => if Labels.isName c then return .label c range.stop else throw (.badLabel c)
  | c :: _ => throw (.badLabel c)

/-- How many lines more there are when lines have become others. -/
def linesAdded (changes : List (Nat × List Bytes)) : Except Breach Nat := do
  return (← changes.mapM fun change => difference change.2.length 1).foldl (· + ·) 0

def planSubstitute (v : View) (range : LineRange) (tail : List Char) : Query Plan := do
  let request ← SubstituteRequest.parse v tail
  Query.checkInterrupt
  let texts ← v.window.texts v.pool range.start range.stop
  let lines := (texts.zipIdx range.start).map fun (text, n) => (n, text)
  let changes ← request.reviseAll v.limits.lineLength lines
  if changes.isEmpty then throw .noMatch
  let extra ← linesAdded changes
  liftExcept (v.checkCapacity extra)
  return .edit (.revise changes) (0 < extra) request.print

/-- What a command comes to. Without a letter, the last line of the range is shown. -/
def plan (v : View) (cmd : Option LineCommand) (range : LineRange) (tail : List Char) :
    Query Plan :=
  match cmd with
  | none => v.planGoto range.stop (some .plain)
  | some (.print style) => v.planPrint style range tail
  | some .lineNumber => planLineNumber range tail
  | some .delete => planDelete range tail
  | some (.join spaced) => v.planJoin spaced range tail
  | some .move => v.planMove range tail
  | some .copy => v.planCopy range tail
  | some .label => planLabel range tail
  | some .substitute => v.planSubstitute range tail

end View

namespace EditM

def edit [CountLimit] (e : Edit) : EditM Unit := do
  onWindow fun w p => e.perform w p
  modifyWindow Window.noteEdit

def printDot (print : Option PrintStyle) : EditM (List String) := do
  let v := (← get).view
  match print with
  | some style => v.render v.window.dot style
  | none => return []

/-- Carries out a plan. A global command has recorded the window already. -/
def carryOut [CountLimit] (inGlobal : Bool) : Plan → EditM Report
  | .look dot output => do
    match dot with
    | some n => goto n
    | none => pure ()
    return .ofOutput output
  | .label name line => do
    modifyWindow fun w => (w.setLabel name line).getD w
    return .clean
  | .edit e shapeChanged print => do
    if !inGlobal then snapshot
    edit e
    return .ofEdit shapeChanged (← printDot print)

def runLine [CountLimit] (inGlobal : Bool) (cmd : Option LineCommand) (range : LineRange)
    (tail : List Char) : EditM Report := do
  carryOut inGlobal (← query fun v => v.plan cmd range tail)

end EditM

end LineEditor
