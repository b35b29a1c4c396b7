import LineEditor.Engine.Basic
import LineEditor.Text.Blob
import LineEditor.Text.Utf8

/-!
# Exchange of bytes

How text gets into the current window and out of it, other than by editing: blobs, directory
listings, single lines. Nothing here records the state before; a command that can be undone does so
itself.
-/

namespace LineEditor

namespace View

def checkLine (v : View) (n : Nat) : Except EditError Unit :=
  if n = 0 || v.window.dol < n then throw (.lineOutOfRange n) else pure ()

/-- Refuses places that are neither before the first line nor behind one. -/
def checkPlace (v : View) (n : Nat) : Except EditError Unit :=
  if v.window.dol < n then throw (.lineOutOfRange n) else pure ()

/-- Refuses runs of lines that are not in the window. An empty window has the run of no lines,
which starts at 0 or 1. -/
def checkRun (v : View) (start stop : Nat) : Except EditError Unit :=
  let dol := v.window.dol
  if dol = 0 then
    if stop = 0 && start ≤ 1 then pure () else throw (.lineOutOfRange (max stop start))
  else if start = 0 then throw (.lineOutOfRange 0)
  else if dol < stop then throw (.lineOutOfRange stop)
  else if stop < start then throw .badRange
  else pure ()

/-- Lines `start` to `stop` as a blob. It ends with a newline unless it ends with a last line that
had none. -/
def blob (v : View) (start stop : Nat) : Except Breach Bytes := do
  let w := v.window
  if w.dol = 0 then return []
  return Blob.join (← w.texts v.pool start stop) !(stop == w.dol && w.flags.noFinalNewline)

end View

namespace EditM

def checkCapacity (adding : Nat) : EditM Unit := do
  liftExcept ((← get).view.checkCapacity adding)

/-- Inserts the lines of a blob behind line `after`; dot is on the last of them. The answer is their
number. -/
def insertBulk (after : Nat) (blob : Bytes) : EditM Nat := do
  let v := (← get).view
  liftExcept (v.checkPlace after)
  let split ← Blob.read blob
  liftExcept (v.checkCapacity split.lines.length)
  if split.hasNul then modifyWindow fun w => { w with flags.binary := true }
  onWindow fun w p => w.insertLines p after split.lines
  if after = v.window.dol && !split.lines.isEmpty && !split.finalNewline then
    modifyWindow fun w => { w with flags.noFinalNewline := true }
  return split.lines.length

/-- Inserts a directory listing behind line `after`; the window then shows a directory. -/
def insertDirectory (after : Nat) (entries : List (Bytes × Option Suffix)) : EditM Nat := do
  let v := (← get).view
  liftExcept (v.checkPlace after)
  liftExcept (v.checkCapacity entries.length)
  modifyWindow fun w => { w with flags.directory := true }
  onWindow fun w p => w.insertEntries p after entries
  return entries.length

/-- Replaces line `n` by the lines of a value from the browsing layer. -/
def updateLine (n : Nat) (value : Bytes) : EditM Unit := do
  let v := (← get).view
  liftExcept (v.checkLine n)
  let lines := Bytes.splitOn Bytes.newline value
  let more ← difference lines.length 1
  liftExcept (v.checkCapacity more)
  onWindow fun w p => w.replaceLines p n n lines
  modifyWindow Window.noteEdit

def extractRange (start stop : Nat) : EditM Bytes := do
  let v := (← get).view
  liftExcept (v.checkRun start stop)
  v.blob start stop

def fetchLine (n : Nat) : EditM Bytes := do
  let v := (← get).view
  liftExcept (v.checkLine n)
  return (← v.window.text? v.pool n).getD []

def displayLines : EditM (List String) := do
  let v := (← get).view
  return (← v.window.shownLines v.pool 1 v.window.dol).map fun line => Utf8.lossy line.2

end EditM

end LineEditor
