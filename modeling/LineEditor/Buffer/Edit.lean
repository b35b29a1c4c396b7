import LineEditor.Buffer.Window

/-!
# Edits

The ways to change the lines of a window. Each one keeps the books of the pool: new lines are stored
before old ones are given back, and what a window no longer shows is released. A range that does not
lie inside the window is a breach.
-/

namespace LineEditor

namespace Window

/-- Inserts lines with their suffixes behind line `after`; dot is on the last of them. -/
def insertEntries (w : Window) (p : Pool) (after : Nat) (entries : List (Bytes × Option Suffix)) :
    Except Breach (Window × Pool) := do
  let (handles, p) := p.append (entries.map Prod.fst)
  let insert := (handles.zip entries).map fun (h, e) => { Entry.plain h with suffix := e.2 }
  let (w, p, _) ← w.exchange p after 0 insert
  return (if entries.isEmpty then w else w.setDot (after + entries.length), p)

/-- Inserts lines behind line `after`; dot is on the last of them. -/
def insertLines (w : Window) (p : Pool) (after : Nat) (lines : List Bytes) :
    Except Breach (Window × Pool) :=
  w.insertEntries p after (lines.map fun line => (line, none))

/-- Deletes lines `start` to `stop`; dot is on the line behind them, or on the last line. -/
def deleteLines (w : Window) (p : Pool) (start stop : Nat) : Except Breach (Window × Pool) := do
  if start = 0 || stop < start then throw (.linesOutside start stop w.dol)
  let (w, p, _) ← w.exchange p (start - 1) (stop - start + 1) []
  return (w.setDot (min start w.dol), p)

/-- Replaces lines `start` to `stop`; dot is on the last of the new lines. Without new lines this is
a deletion. -/
def replaceLines (w : Window) (p : Pool) (start stop : Nat) (lines : List Bytes) :
    Except Breach (Window × Pool) := do
  if lines.isEmpty then w.deleteLines p start stop
  else
    if start = 0 || stop < start then throw (.linesOutside start stop w.dol)
    let (handles, p) := p.append lines
    let (w, p, _) ← w.exchange p (start - 1) (stop - start + 1) (LineMap.ofHandles handles)
    return (w.setDot (start - 1 + lines.length), p)

/-- Turns line `n` into one line or more; its labels stay on the first of them. -/
def reviseLine (w : Window) (p : Pool) (n : Nat) (lines : List Bytes) :
    Except Breach (Window × Pool) := do
  let (new, p) ← w.replaceLines p n n lines
  return (if lines.isEmpty then new else { new with labels := new.labels.hold w.labels n }, p)

def goto (w : Window) (n : Nat) : Except Breach Window :=
  if w.dol < n then .error (.placeOutside n w.dol) else .ok (w.setDot n)

/-- Turns lines, given by their numbers from top to bottom, into one line or more each; `shift` is
the number of lines that came in above. Dot is on the last line written. -/
def reviseLines (w : Window) (p : Pool) (shift : Nat) :
    List (Nat × List Bytes) → Except Breach (Window × Pool)
  | [] => return (w, p)
  | (n, lines) :: rest => do
    let (w, p) ← w.reviseLine p (n + shift) lines
    let more ← difference lines.length 1
    let last ← difference (n + shift + lines.length) 1
    let w ← w.goto last
    w.reviseLines p (shift + more) rest

/-- Copies lines `start` to `stop` behind line `after`; dot is on the last copy. The copies share
the stored lines and are not marked. -/
def copyLines [CountLimit] (w : Window) (p : Pool) (start stop after : Nat) :
    Except Breach (Window × Pool) := do
  if start = 0 || stop < start || w.dol < stop then throw (.linesOutside start stop w.dol)
  let copies := (w.lines.removed (start - 1) (stop - start + 1)).map Entry.unmark
  let p ← p.retainAll (copies.map Entry.handle)
  let (w, p, _) ← w.exchange p after 0 copies
  return (w.setDot (after + copies.length), p)

def release (w : Window) (p : Pool) : Except Breach (Pool × Nat) := w.lines.release p

end Window

/-- A change of the lines of a window, all its parts known. -/
inductive Edit where
  | insert (after : Nat) (lines : List Bytes)
  | delete (start stop : Nat)
  | replace (start stop : Nat) (lines : List Bytes)
  | copy (start stop after : Nat)
  | move (start stop after : Nat)
  /-- Lines by number, top to bottom, with what each of them becomes. -/
  | revise (changes : List (Nat × List Bytes))
  deriving Repr, DecidableEq

def Edit.perform [CountLimit] (w : Window) (p : Pool) : Edit → Except Breach (Window × Pool)
  | insert after lines => w.insertLines p after lines
  | delete start stop => w.deleteLines p start stop
  | replace start stop lines => w.replaceLines p start stop lines
  | copy start stop after => w.copyLines p start stop after
  | move start stop after => return (← w.moveLines start stop after, p)
  | revise changes => w.reviseLines p 0 changes

end LineEditor
