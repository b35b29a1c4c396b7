import LineEditor.Buffer.Pool

/-!
# Line maps

What a window shows is a list of entries: a handle, the mark that a global command leaves on lines
still to be visited, and for directory entries a suffix that tells the kind of file.
-/

namespace LineEditor

/-- One or two bytes shown after a directory entry. -/
structure Suffix where
  bytes : Bytes
  bytes_ne_nil : bytes ≠ []
  length_le : bytes.length ≤ 2
  deriving Repr, DecidableEq

def Suffix.ofBytes? (bytes : Bytes) : Option Suffix :=
  if h : bytes ≠ [] ∧ bytes.length ≤ 2 then some ⟨bytes, h.1, h.2⟩ else none

/-- One line of a window. -/
structure Entry where
  handle : Handle
  marked : Bool
  suffix : Option Suffix
  deriving Repr, DecidableEq

namespace Entry

def plain (h : Handle) : Entry := ⟨h, false, none⟩

def unmark (e : Entry) : Entry := { e with marked := false }

end Entry

/-- The lines of a window, first to last. -/
abbrev LineMap := List Entry

namespace LineMap

def handles (m : LineMap) : List Handle := m.map Entry.handle

def ofHandles (hs : List Handle) : LineMap := hs.map Entry.plain

def clearMarks (m : LineMap) : LineMap := m.map Entry.unmark

def markedCount (m : LineMap) : Nat := m.countP Entry.marked

/-- Whether two maps name the same lines; marks and suffixes do not matter. -/
def sameLines (m n : LineMap) : Bool := m.handles == n.handles

/-- The map with `remove` entries behind the first `start` replaced by `insert`. -/
def splice (m : LineMap) (start remove : Nat) (insert : List Entry) : LineMap :=
  m.take start ++ insert ++ m.drop (start + remove)

def removed (m : LineMap) (start remove : Nat) : List Entry := (m.drop start).take remove

/-- The map with the run of `count` entries behind the first `start` taken out and put behind the
first `after` entries of the whole; `after` lies outside the run or at one of its ends. -/
def relocate (m : LineMap) (start count after : Nat) : LineMap :=
  let run := m.removed start count
  if start + count ≤ after then
    m.take start ++ (m.drop (start + count)).take (after - (start + count)) ++ run ++ m.drop after
  else
    m.take after ++ run ++ (m.drop after).take (start - after) ++ m.drop (start + count)

/-- A copy with references of its own. -/
def share [CountLimit] (m : LineMap) (p : Pool) : Except Breach (LineMap × Pool) := do
  return (m.clearMarks, ← p.retainAll m.handles)

def release (m : LineMap) (p : Pool) : Except Breach (Pool × Nat) := p.releaseAll m.handles

/-- Replaces a run of entries; those taken out give their references back. -/
def replace (m : LineMap) (p : Pool) (start remove : Nat) (insert : List Entry) :
    Except Breach (LineMap × Pool × Nat) := do
  if m.length < start + remove then throw (.linesOutside (start + 1) (start + remove) m.length)
  let (p, count) ← p.releaseAll (m.removed start remove |>.map Entry.handle)
  return (m.splice start remove insert, p, count)

end LineMap

end LineEditor
