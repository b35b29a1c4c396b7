import LineEditor.Buffer.Edit

/-!
# Undo

A session keeps one record of how a window looked before its last change. Undoing swaps the record
with the window, so undoing twice changes nothing. The record has references of its own: the lines
that the change took out of the window stay stored as long as the record does.
-/

namespace LineEditor

/-- How a window looked. -/
structure UndoRecord where
  window : Nat
  dot : Nat
  labels : Labels
  lines : LineMap
  noFinalNewline : Bool
  deriving Repr, DecidableEq

/-- The record of a session, and how often its lines could be kept because the window had not
changed since. -/
structure UndoSlot where
  record : Option UndoRecord
  skipped : Nat
  deriving Repr, DecidableEq

namespace UndoSlot

def empty : UndoSlot := ⟨none, 0⟩

def holds (u : UndoSlot) (id : Nat) : Bool := u.record.any fun r => r.window == id

/-- The record of a window as it is, over lines shared with the window. -/
def recordOf (w : Window) (lines : LineMap) : UndoRecord where
  window := w.id
  dot := w.dot
  labels := w.labels
  lines := lines
  noFinalNewline := w.flags.noFinalNewline

def releaseRecord (r : Option UndoRecord) (p : Pool) : Except Breach Pool :=
  match r with
  | some r => do return (← r.lines.release p).1
  | none => return p

/-- Records how a window looks. The lines of the record are kept if they are still those of the
window. -/
def capture [CountLimit] (u : UndoSlot) (w : Window) (p : Pool) :
    Except Breach (UndoSlot × Window × Pool) := do
  let w := { w with flags.hasUndo := true }
  match u.record with
  | some r =>
    if r.window = w.id && r.lines.sameLines w.lines then
      return (⟨some (recordOf w r.lines), u.skipped + 1⟩, w, p)
  | none => pure ()
  let (lines, p) ← w.lines.share p
  let p ← releaseRecord u.record p
  return (⟨some (recordOf w lines), u.skipped⟩, w, p)

/-- Swaps a window with its record. -/
def undo? (u : UndoSlot) (w : Window) : Option (UndoSlot × Window) :=
  match u.record with
  | some r =>
    if r.window = w.id then
      some
        ({ u with record := some (recordOf w w.lines) },
         { w with
            dot := r.dot
            labels := r.labels
            lines := r.lines
            flags.noFinalNewline := r.noFinalNewline })
    else none
  | none => none

def discard (u : UndoSlot) (p : Pool) : Except Breach (UndoSlot × Pool) := do
  return ({ u with record := none }, ← releaseRecord u.record p)

def discardFor (u : UndoSlot) (id : Nat) (p : Pool) : Except Breach (UndoSlot × Pool) :=
  if u.holds id then u.discard p else return (u, p)

end UndoSlot

end LineEditor
