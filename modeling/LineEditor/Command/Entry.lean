import LineEditor.Command.Line
import LineEditor.Engine.Exchange

/-!
# Typed text

After the commands `a`, `i` and `c` the lines that follow are text, up to a dot that stands alone.
The window does not change before that dot; then all of the text goes in at once.
-/

namespace LineEditor.EditM

/-- Starts the text of a command. Text for line 0 goes to the top. -/
def beginEntry (after : Nat) (replace : Option (Nat × Nat)) : EditM Report := do
  modify fun e => { e with entry := some ⟨e.window.id, after, replace, []⟩ }
  return .clean

def runAppend (range : LineRange) (tail : List Char) : EditM Report := do
  liftExcept (noTail Command.append.letter tail)
  beginEntry range.stop none

def runInsert (range : LineRange) (tail : List Char) : EditM Report := do
  liftExcept (noTail Command.insert.letter tail)
  beginEntry (range.stop - 1) none

def runChange (range : LineRange) (tail : List Char) : EditM Report := do
  liftExcept (noTail Command.change.letter tail)
  let after ← difference range.start 1
  beginEntry after (some (range.start, range.stop))

/-- The edit that a text stands for. -/
def entryEdit (entry : TextEntry) : Edit :=
  match entry.replace with
  | some (start, stop) => .replace start stop entry.lines
  | none => .insert entry.after entry.lines

/-- How many lines a text takes the place of. -/
def entryRemoved (entry : TextEntry) : Except Breach Nat :=
  match entry.replace with
  | some (start, stop) => return (← difference stop start) + 1
  | none => return 0

def commitEntry [CountLimit] (entry : TextEntry) : EditM Report := do
  if entry.window ≠ (← get).window.id then return .clean
  else
    let removed ← entryRemoved entry
    if entry.lines.isEmpty && removed = 0 then return .clean
    else
      if removed < entry.lines.length then checkCapacity (entry.lines.length - removed)
      snapshot
      edit (entryEdit entry)
      return .ofEdit true []

def typeLine [CountLimit] (entry : TextEntry) (line : List Char) : EditM Report := do
  if line = ['.'] then
    modify fun e => { e with entry := none }
    commitEntry entry
  else
    modify fun e =>
      { e with entry := some { entry with lines := entry.lines ++ [Utf8.ofChars line] } }
    return .clean

end LineEditor.EditM
