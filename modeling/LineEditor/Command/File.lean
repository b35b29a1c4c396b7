import LineEditor.Command.Basic
import LineEditor.Command.Progress
import LineEditor.Engine.Exchange
import LineEditor.Engine.Sessions

/-!
# Commands on files and sessions

Reading and writing files, editing another file, and going from window to window and from session to
session. Edits that are not saved are not given up without a warning: the command has to come twice.
-/

namespace LineEditor.EditM

/-- Refuses once to give up edits that are not saved. -/
def guardUnsaved (changed : Bool) : EditM Unit := do
  if changed && !(← get).quitArmed then
    modify fun e => { e with quitArmed := true }
    throw .unsavedChanges
  else modify fun e => { e with quitArmed := false }

/-- The file that a tail names, or the one that the window remembers. -/
def targetFile (tail : List Char) : EditM (List Char) := do
  let name := Unicode.trim tail
  if name.isEmpty then
    match (← get).window.fileName with
    | some name => return name
    | none => throw .noFileName
  else return name

/-- Remembers the name of a file unless there is one already. -/
def rememberFile (name : List Char) : EditM Unit :=
  modifyWindow fun w => { w with fileName := w.fileName <|> some name }

def sessionNumber (digits : List Char) : Except EditError Nat :=
  match Number.ofDigits? Number.maxCount digits with
  | some n => return n
  | none => throw (.badSession Number.maxCount)

/-! ## Sessions -/

def editSession (digits : List Char) : EditM Report := do
  let n ← liftExcept (sessionNumber digits)
  let created ← switchSession n
  modify fun e => { e with quitArmed := false }
  let line ←
    if created then pure "new session"
    else
      match (← get).window.fileName with
      | some name => pure (String.ofList name)
      | none => pure "no file"
  return .ofSwitch [line]

/-- Shows what was loaded in a new window: on top of a page, else in place of the window. -/
def showLoaded (path : List Char) (onTop : Bool) (loaded : Loaded) : EditM Report := do
  let lines :=
    match loaded with
    | .file bytes => Blob.countLines bytes
    | .directory entries => entries.length
  let limit := (← get).limits.lines
  if limit < lines then throw (.tooManyLines limit)
  let _ ← if onTop then pushWindow .none else replaceWindow .none
  let size ←
    match loaded with
    | .file bytes => do
      let _ ← insertBulk 0 bytes
      pure bytes.length
    | .directory entries => insertDirectory 0 entries
  modifyWindow fun w => { w with fileName := some path }
  return .ofSwitch [toString size]

/-- `e` says which session is current, `e` with a number goes to a session, and `e` with a path
loads a file or lists a directory. -/
def runEdit (tail : List Char) : EditM Progress := do
  let arg := Unicode.trim tail
  if arg.isEmpty then return .done (.ofOutput [toString (← get).slot])
  else if arg.all Char.isDigit then return .done (← editSession arg)
  else
    let w := (← get).window
    if !w.flags.browsing then guardUnsaved w.flags.changed
    return .load arg fun answer => do
      showLoaded arg w.flags.browsing (← liftExcept (ofStorage arg answer))

def runQuit (tail : List Char) : EditM Report := do
  liftExcept (noTail Command.quit.letter tail)
  guardUnsaved (← get).session.hasChanges
  match ← closeSession with
  | some n => return .ofSwitch [toString n]
  | none => return { Report.clean with quit := true }

def runBack (tail : List Char) : EditM Report := do
  liftExcept (noTail Command.back.letter tail)
  popWindow
  return .ofSwitch []

def slotArgument (tail : List Char) : Except EditError (Option Nat) :=
  let arg := Unicode.trim tail
  if arg.isEmpty then return none
  else if arg.all Char.isDigit then return some (← sessionNumber arg)
  else throw (.trailingText Command.moveSession.letter)

def runMoveSession (tail : List Char) : EditM Report := do
  let slot ← moveSession (← liftExcept (slotArgument tail))
  return .ofOutput [toString slot]

/-- `f` says the name of the file; with a name it sets it. -/
def runFileName (tail : List Char) : EditM Report := do
  let arg := Unicode.trim tail
  if !arg.isEmpty then modifyWindow fun w => { w with fileName := some arg }
  match (← get).window.fileName with
  | some name => return .ofOutput [String.ofList name]
  | none => throw .noFileName

def runUndo (tail : List Char) : EditM Report := do
  liftExcept (noTail Command.undo.letter tail)
  undo
  return .ofSwitch []

/-! ## Files -/

def insertFile [CountLimit] (path : List Char) (after : Nat) (bytes : Bytes) : EditM Report := do
  checkCapacity (Blob.countLines bytes)
  rememberFile path
  if bytes.isEmpty then return .ofOutput ["0"]
  else
    snapshot
    let _ ← insertBulk after bytes
    modifyWindow Window.noteEdit
    return .ofEdit true [toString bytes.length]

def runRead [CountLimit] (range : LineRange) (tail : List Char) : EditM Progress := do
  let path ← targetFile tail
  return .read path fun answer => do
    insertFile path range.stop (← liftExcept (ofStorage path answer))

/-- Notes that lines were written. Only the whole text in a file of its own is saved. -/
def noteWritten (path : List Char) (range : LineRange) (append : Bool) (count : Nat) :
    EditM Report := do
  let whole := range.start ≤ 1 && range.stop = (← get).window.dol
  rememberFile path
  if whole && !append then modifyWindow fun w => { w with flags.changed := false }
  return .ofOutput [toString count]

/-- Writes lines to a file, or with a plus sign adds them to it. -/
def runWrite (range : LineRange) (tail : List Char) : EditM Progress := do
  let (append, rest) :=
    match tail with
    | '+' :: rest => (true, rest)
    | _ => (false, tail)
  let path ← targetFile rest
  let bytes ← extractRange range.start range.stop
  return .write path bytes append fun answer => do
    noteWritten path range append (← liftExcept (ofStorage path answer))

end LineEditor.EditM
