import LineEditor.Command.Line

/-!
# Global commands

A global command first marks the lines of its range that match, or those that do not. Then it visits
the marked lines from the top on; each one loses its mark, becomes the current line and is handed to
the subcommand. If that moved lines, the visit goes on at the same number, where another line may
now stand, else at the next one; when the end is reached, it starts again at the top. Nothing that a
subcommand does marks a line, so there is one visit less to come after each. The window is recorded
once, before the first subcommand.
-/

namespace LineEditor

/-- A global command whose lines are known. -/
structure GlobalRequest where
  subcommand : List Char
  /-- For each line of the range, whether it is to be visited. -/
  hits : List Bool
  deriving Repr, DecidableEq

namespace GlobalRequest

/-- The subcommand in the text behind the pattern; where there is none, lines are printed. -/
def subcommandOf (text : List Char) : List Char :=
  if (Unicode.trim text).isEmpty then ['p'] else Unicode.trim text

def parse (v : View) (inverted : Bool) (range : LineRange) (tail : List Char) :
    Query GlobalRequest := do
  let (_, pattern) ← liftReading (Delimited.readFirst tail)
  let source ← Query.resolve pattern.body
  let matcher ← liftExcept (v.window.compile source false)
  Query.remember source
  Query.checkInterrupt
  let lines ← v.window.shownLines v.pool range.start range.stop
  let hits := lines.map fun line => matcher.isMatch line.2 != inverted
  if !hits.any id then throw .noLinesMarked
  return ⟨subcommandOf pattern.rest, hits⟩

end GlobalRequest

namespace LineMap

/-- Marks the lines behind the first `before` as given, and no others. -/
def markRun (m : LineMap) (before : Nat) (hits : List Bool) : LineMap :=
  clearMarks (m.take before) ++
    (m.drop before).zipWith (fun e hit => { e with marked := hit }) hits ++
    clearMarks (m.drop (before + hits.length))

/-- The first marked line behind the first `before` lines. -/
def nextMarkedBehind? (m : LineMap) (before : Nat) : Option Nat :=
  ((m.drop before).findIdx? Entry.marked).map fun i => before + i + 1

/-- The marked line to be visited next: the first one from `n` on, or else the first one of all. -/
def nextMarked? (m : LineMap) (n : Nat) : Option Nat :=
  m.nextMarkedBehind? (n - 1) <|> m.nextMarkedBehind? 0

end LineMap

namespace EditM

/-- Runs the line of a global command on the current line. -/
def runSubcommand [CountLimit] (text : List Char) : EditM Report := do
  let line ← liftReading (CommandLine.read text)
  let cmd ← liftExcept (identify line.letter)
  liftExcept (checkMode (← get).window.mode cmd)
  let lineCmd ← liftExcept (checkGlobal cmd)
  let range ← query fun v => v.locate true cmd line.range
  runLine true lineCmd range line.tail

/-- Takes the mark off line `n` and runs the subcommand there. A substitution without a match is no
failure; any other error stops the command. -/
def visit [CountLimit] (text : List Char) (n : Nat) (lastModified : Option Nat) : EditM Report := do
  modifyWindow fun w => w.setMark n false
  goto n
  match ← attempt (runSubcommand text) with
  | .ok report => return report
  | .error .noMatch => return .clean
  | .error cause => throw (.partialGlobalFailure cause lastModified)

/-- Visits the marked lines, the first one from `n` on. -/
def visitMarked [CountLimit] (text : List Char) : Nat → Nat → Option Nat → EditM Report
  | 0, _, _ => return .clean
  | fuel + 1, n, lastModified => do
    match (← get).window.lines.nextMarked? n with
    | none => return .clean
    | some n =>
      let report ← visit text n lastModified
      let dot := (← get).window.dot
      let rest ← visitMarked text fuel (if report.shapeChanged then n else n + 1)
        (if report.changed then some dot else lastModified)
      return report.followedBy rest

def runGlobal [CountLimit] (inverted : Bool) (range : LineRange) (tail : List Char) : EditM Report := do
  let request ← query fun v => GlobalRequest.parse v inverted range tail
  modifyWindow fun w => { w with lines := w.lines.markRun (range.start - 1) request.hits }
  snapshot
  let outcome ← attempt (visitMarked request.subcommand (← get).window.lines.markedCount 1 none)
  modifyWindow Window.clearMarks
  liftExcept outcome

end EditM

end LineEditor
