import LineEditor.Command.Entry
import LineEditor.Command.File
import LineEditor.Command.Global

/-!
# Dispatch

One line of input is one transaction. While text is being typed, the line belongs to it; else it is
a command: it is read, checked against the window, its range is found, and it is run.
-/

namespace LineEditor

namespace EditM

/-- Whether a command leaves a warning of unsaved edits in force. -/
def keepsWarning : Option Command → Bool
  | some .quit | some .edit => true
  | _ => false

def runCommand [CountLimit] (cmd : Option Command) (range : LineRange) (tail : List Char) :
    EditM Progress :=
  match cmd with
  | none => .done <$> runLine false none range tail
  | some (.line c) => .done <$> runLine false (some c) range tail
  | some .append => .done <$> runAppend range tail
  | some .insert => .done <$> runInsert range tail
  | some .change => .done <$> runChange range tail
  | some (.global inverted) => .done <$> runGlobal inverted range tail
  | some .undo => .done <$> runUndo tail
  | some .edit => runEdit tail
  | some .quit => .done <$> runQuit tail
  | some .back => .done <$> runBack tail
  | some .moveSession => .done <$> runMoveSession tail
  | some .fileName => .done <$> runFileName tail
  | some .read => runRead range tail
  | some .write => runWrite range tail

def execute [CountLimit] (text : List Char) : EditM Progress := do
  let line ← liftReading (CommandLine.read text)
  let cmd ← liftExcept (identify line.letter)
  if !keepsWarning cmd then modify fun e => { e with quitArmed := false }
  liftExcept (checkMode (← get).window.mode cmd)
  let range ← query fun v => v.locate false cmd line.range
  runCommand cmd range line.tail

def withoutNewline (line : List Char) : List Char :=
  if line.getLast? = some '\n' then line.dropLast else line

/-- Takes one line of input. -/
def dispatch [CountLimit] (line : List Char) : EditM Progress := do
  match (← get).entry with
  | some entry => .done <$> typeLine entry (withoutNewline line)
  | none => execute (withoutNewline line)

end EditM

namespace Engine

/-- Runs an action on an engine: the answer or the error of the user, and the engine afterwards. -/
def run (e : Engine) (x : EditM α) : Except Breach (Except EditError α × Engine) := x.run.run e

def dispatchOn [CountLimit] (s : Storage σ) (line : List Char) (e : Engine) (disk : σ) :
    Except Breach (Except EditError Report × Engine × σ) := do
  match ← e.run (EditM.dispatch line) with
  | (.error err, e) => return (.error err, e, disk)
  | (.ok progress, e) =>
    let (rest, disk) := progress.complete s disk
    let (answer, e) ← e.run rest
    return (answer, e, disk)

end Engine

end LineEditor
