import LineEditor.Buffer.Labels
import LineEditor.Buffer.LineMap
import LineEditor.Text.Markup

/-!
# Windows

A window is one text being edited: its lines, the current line, the labels and what the window
remembers. Lines are numbered from 1, and the current line is 0 exactly when there are no lines.
The operations here keep labels on their text; the lines they add and drop are references that
belong to the window.
-/

namespace LineEditor

/-- What is true of a window as a whole. -/
structure WindowFlags where
  binary : Bool
  directory : Bool
  browsing : Bool
  changed : Bool
  hasUndo : Bool
  noFinalNewline : Bool
  deriving Repr, DecidableEq

def WindowFlags.none : WindowFlags := ⟨false, false, false, false, false, false⟩

/-- What a window is for; it decides which commands may be used. -/
inductive Mode where
  | normal
  | browse
  | directory
  deriving Repr, DecidableEq

def Mode.name : Mode → String
  | normal => "normal"
  | browse => "browse"
  | directory => "directory"

structure Window where
  id : Nat
  /-- The current line. -/
  dot : Nat
  lines : LineMap
  labels : Labels
  flags : WindowFlags
  fileName : Option (List Char)
  lastSearch : Option (List Char)
  lastReplacement : Option (List Char)
  deriving Repr, DecidableEq

namespace Window

def empty (id : Nat) (flags : WindowFlags) : Window where
  id := id
  dot := 0
  lines := []
  labels := .none
  flags := flags
  fileName := none
  lastSearch := none
  lastReplacement := none

/-- The number of the last line. -/
def dol (w : Window) : Nat := w.lines.length

def entry? (w : Window) (n : Nat) : Option Entry :=
  match n with
  | 0 => none
  | i + 1 => w.lines[i]?

def mode (w : Window) : Mode :=
  if w.flags.directory then .directory else if w.flags.browsing then .browse else .normal

def setDot (w : Window) (n : Nat) : Window := { w with dot := n }

/-- Lets a label name a line; line 0 clears it. Only small letters name labels. -/
def setLabel (w : Window) (name : Char) (n : Nat) : Option Window :=
  if n ≤ w.dol && Labels.isName name then
    some { w with labels := w.labels.put name (if n = 0 then none else some n) }
  else none

/-- Notes that the text differs from what is stored elsewhere. -/
def markChanged (w : Window) : Window := { w with flags.changed := true }

/-- Notes an edit. Pages being browsed are no documents, so an edit leaves nothing to be saved
there. -/
def noteEdit (w : Window) : Window := if w.mode = .browse then w else w.markChanged

/-! ## Marks -/

def isMarked (w : Window) (n : Nat) : Bool := (w.entry? n).any Entry.marked

def setMark (w : Window) (n : Nat) (on : Bool) : Window :=
  match n with
  | 0 => w
  | i + 1 => { w with lines := w.lines.modify i fun e => { e with marked := on } }

def clearMarks (w : Window) : Window := { w with lines := w.lines.clearMarks }

/-! ## Changing lines -/

/-- Where line `n` stands after a splice; lines taken out stand nowhere. -/
def shifted (start remove added n : Nat) : Except Breach (Option Nat) := do
  if n ≤ start then return some n
  else if n ≤ start + remove then return none
  else return some ((← difference n remove) + added)

/-- Replaces `remove` lines behind the first `start`; the answer counts the lines that are gone
from the pool. What was known of the end of the last line no longer holds if that line goes or
another comes behind it. -/
def exchange (w : Window) (p : Pool) (start remove : Nat) (insert : List Entry) :
    Except Breach (Window × Pool × Nat) := do
  let atEnd := (0 < remove || !insert.isEmpty) && w.dol ≤ start + remove
  let (lines, p, count) ← w.lines.replace p start remove insert
  let labels ← w.labels.renumber (shifted start remove insert.length)
  return ({ w with
    lines := lines
    labels := labels
    dot := if lines.isEmpty then 0 else max 1 (min w.dot lines.length)
    flags.noFinalNewline := w.flags.noFinalNewline && !atEnd }, p, count)

/-- Where line `n` stands after `count` lines, `start` to `stop`, were moved behind line `after`. -/
def carried (start stop count after n : Nat) : Except Breach Nat := do
  if stop ≤ after then
    if start ≤ n && n ≤ stop then return n + (← difference after stop)
    else if stop < n && n ≤ after then difference n count
    else return n
  else if start ≤ n && n ≤ stop then difference n (← difference (← difference start 1) after)
  else if after < n && n < start then return n + count
  else return n

/-- Moves lines `start` to `stop` behind line `after`; dot is on the last of them. -/
def moveLines (w : Window) (start stop after : Nat) : Except Breach Window := do
  if start = 0 || stop < start || w.dol < stop then throw (.linesOutside start stop w.dol)
  if w.dol < after then throw (.placeOutside after w.dol)
  if start ≤ after && after < stop then throw (.movedInside start stop after)
  let count := (← difference stop start) + 1
  let before ← difference start 1
  let labels ← w.labels.renumber fun n => some <$> carried start stop count after n
  return { w with
    lines := w.lines.relocate before count after
    labels := labels
    dot := if stop ≤ after then after else after + count
    flags.noFinalNewline :=
      w.flags.noFinalNewline && !(stop == w.dol || after == w.dol) }

/-! ## Reading lines -/

def text? (w : Window) (p : Pool) (n : Nat) : Except Breach (Option Bytes) :=
  match w.entry? n with
  | some e => return some (← p.get e.handle)
  | none => return none

/-- What is shown for an entry: in a directory, its suffix follows the name. -/
def showEntry (w : Window) (p : Pool) (e : Entry) : Except Breach Bytes := do
  let text ← p.get e.handle
  let suffix := if w.flags.directory then (e.suffix.map Suffix.bytes).getD [] else []
  return (← Markup.strip text) ++ suffix

def display? (w : Window) (p : Pool) (n : Nat) : Except Breach (Option Bytes) :=
  match w.entry? n with
  | some e => return some (← w.showEntry p e)
  | none => return none

def texts (w : Window) (p : Pool) (start stop : Nat) : Except Breach (List Bytes) :=
  (w.lines.removed (start - 1) (stop + 1 - start)).mapM fun e => p.get e.handle

/-- Lines `start` to `stop` as shown, with their numbers. -/
def shownLines (w : Window) (p : Pool) (start stop : Nat) : Except Breach (List (Nat × Bytes)) :=
  ((w.lines.removed (start - 1) (stop + 1 - start)).zipIdx start).mapM fun (e, n) =>
    return (n, ← w.showEntry p e)

/-! ## Consistency -/

/-- Dot and the labels name lines, and dot is 0 only where there is no line. -/
def isConsistent (w : Window) : Bool :=
  w.dot ≤ w.dol && (w.dot == 0) == (w.dol == 0) && w.labels.named.all (· ≤ w.dol)

end Window

end LineEditor
