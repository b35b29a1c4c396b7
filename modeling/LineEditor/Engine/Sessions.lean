import LineEditor.Engine.Basic

/-!
# Sessions and windows of the engine

Switching, closing and moving sessions, and stacking windows. Text being typed belongs to the
current window, so it is given up when another window becomes current.
-/

namespace LineEditor

namespace Engine

def activeSlots (e : Engine) : List Nat := e.table.active

def newWindow (e : Engine) (flags : WindowFlags) : Window × Engine :=
  (.empty e.nextWindow flags, { e with nextWindow := e.nextWindow + 1 })

/-- Puts the current session back into its slot and makes that of slot `n` current. -/
def makeCurrent (e : Engine) (n : Nat) (s : Session) : Engine :=
  { e with slot := n, session := s, others := e.table.put n none, entry := none }

end Engine

namespace EditM

/-- Makes session `n` current. A slot without a session gets one with an empty window; the answer
says whether it did. -/
def switchSession (n : Nat) : EditM Bool := do
  let e ← get
  liftExcept (e.table.checkSlot n)
  match e.table.get? n with
  | some s =>
    set (e.makeCurrent n s)
    return false
  | none =>
    let (w, e) := e.newWindow .none
    set (e.makeCurrent n (.ofWindow w))
    return true

/-- Closes the current session and makes the first other one current. The last session is not
closed; then there is no answer. -/
def closeSession : EditM (Option Nat) := do
  let e ← get
  match e.others.active with
  | [] => return none
  | n :: _ =>
    let (next, others) ← liftExcept (e.others.take n)
    let (p, _) ← e.session.release e.pool
    set { e with pool := p, slot := n, session := next, others := others, entry := none }
    return some n

/-- Moves the current session to slot `target`, or to the first one that is free. -/
def moveSession (target : Option Nat) : EditM Nat := do
  let e ← get
  let n ←
    match target with
    | some n => pure n
    | none =>
      match e.table.firstFree? with
      | some n => pure n
      | none => throw .noSessionsFree
  liftExcept (e.table.checkSlot n)
  if e.table.isActive n then throw (.sessionActive n)
  set { e with slot := n }
  return n

/-- Puts an empty window on top of the current one. The answer is its number. -/
def pushWindow (flags : WindowFlags) : EditM Nat := do
  let (w, e) := (← get).newWindow flags
  set { e with session := e.session.push w, entry := none }
  return w.id

def replaceWindow (flags : WindowFlags) : EditM Nat := do
  let (w, e) := (← get).newWindow flags
  let old := e.window
  let (undo, p) ← e.session.undo.discardFor old.id e.pool
  let (p, _) ← old.release p
  set { e with pool := p, session := { e.session with current := w, undo := undo }, entry := none }
  return w.id

/-- Drops the current window and goes back to the one beneath it. -/
def popWindow : EditM Unit := do
  let e ← get
  match e.session.pop? with
  | none => throw .noPreviousWindow
  | some (old, session) =>
    let (undo, p) ← session.undo.discardFor old.id e.pool
    let (p, _) ← old.release p
    set { e with pool := p, session := { session with undo := undo }, entry := none }

end EditM

end LineEditor
