import LineEditor.Buffer.Undo

/-!
# Sessions

A session is a stack of windows, of which the top one is edited, with one undo record for all of
them. The top window is kept apart from those below it, so a session always has one.
-/

namespace LineEditor

structure Session where
  current : Window
  /-- The windows beneath the current one, the next one first. -/
  below : List Window
  undo : UndoSlot
  deriving Repr, DecidableEq

namespace Session

def ofWindow (w : Window) : Session := ⟨w, [], .empty⟩

/-- All windows, the bottom one first. -/
def windows (s : Session) : List Window := s.below.reverse ++ [s.current]

def depth (s : Session) : Nat := s.below.length + 1

def push (s : Session) (w : Window) : Session :=
  { s with current := w, below := s.current :: s.below }

/-- Takes the current window off, unless it is the only one. -/
def pop? (s : Session) : Option (Window × Session) :=
  match s.below with
  | [] => none
  | w :: rest => some (s.current, { s with current := w, below := rest })

def hasChanges (s : Session) : Bool := s.windows.any fun w => w.flags.changed

def handles (s : Session) : List Handle :=
  s.windows.flatMap (fun w => w.lines.handles) ++
    ((s.undo.record.map fun r => r.lines.handles).getD [])

/-- Gives the lines of windows back, first window first. -/
def releaseWindows (p : Pool) : List Window → Except Breach (Pool × Nat)
  | [] => return (p, 0)
  | w :: rest => do
    let (p, count) ← w.release p
    let (p, more) ← releaseWindows p rest
    return (p, count + more)

/-- Gives back every line of a session; the answer counts those that are gone with its windows. -/
def release (s : Session) (p : Pool) : Except Breach (Pool × Nat) := do
  let (_, p) ← s.undo.discard p
  releaseWindows p s.windows

end Session

end LineEditor
