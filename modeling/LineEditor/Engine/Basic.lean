import LineEditor.Session.Table

/-!
# The engine

All that can change while the editor runs: the stored lines, the sessions, the text being typed and
the request to stop. The current session is kept apart from the others, so there always is one; the
table of the others has its slot empty.

A command runs in the monad `EditM`. An error of the user leaves the engine as far as the command
came; a breach leaves nothing. Looking around is a `Query`: it sees the current window and can
change only what is remembered between commands.
-/

namespace LineEditor

/-- How much the editor holds. -/
structure Limits where
  sessions : Nat
  lines : Nat
  lineLength : Nat
  deriving Repr, DecidableEq

def Limits.standard : Limits := ⟨100, 1000000, 50000⟩

/-- Text being typed; it becomes part of the window when it is complete. -/
structure TextEntry where
  window : Nat
  /-- The line behind which the text goes. -/
  after : Nat
  /-- The lines that the text replaces. -/
  replace : Option (Nat × Nat)
  lines : List Bytes
  deriving Repr, DecidableEq

structure Engine where
  pool : Pool
  /-- The slot of the current session. -/
  slot : Nat
  session : Session
  /-- The sessions that are not current. -/
  others : SessionTable
  limits : Limits
  /-- The user has asked to stop. -/
  interrupted : Bool
  /-- The number of the next new window. -/
  nextWindow : Nat
  entry : Option TextEntry
  /-- The user was warned of unsaved edits. -/
  quitArmed : Bool
  deriving Repr, DecidableEq

namespace Engine

/-- An engine with one empty window in slot 1. There is at least one slot. -/
def new (limits : Limits) : Engine where
  pool := .empty
  slot := 1
  session := .ofWindow (.empty 1 .none)
  others := .ofSize (max limits.sessions 1)
  limits := limits
  interrupted := false
  nextWindow := 2
  entry := none
  quitArmed := false

def window (e : Engine) : Window := e.session.current

def setWindow (e : Engine) (w : Window) : Engine :=
  { e with session := { e.session with current := w } }

/-- All sessions by slot, the current one among them. -/
def table (e : Engine) : SessionTable := e.others.put e.slot (some e.session)

def interrupt (e : Engine) : Engine := { e with interrupted := true }

/-- Every reference held by some window or undo record. -/
def handles (e : Engine) : List Handle := e.table.sessions.flatMap Session.handles

/-- Whether every reference counted in the pool is held somewhere. -/
def poolBalanced (e : Engine) : Bool := e.pool.isBalanced e.handles

def windowsConsistent (e : Engine) : Bool :=
  e.table.sessions.all fun s => s.windows.all Window.isConsistent

end Engine

/-! ## Looking around -/

/-- What commands look at. -/
structure View where
  window : Window
  pool : Pool
  limits : Limits

/-- What looking around can change: the texts remembered for later, and the request to stop, which
is cleared where it is heeded. -/
structure Recall where
  search : Option (List Char)
  replacement : Option (List Char)
  interrupted : Bool
  deriving Repr, DecidableEq

abbrev Query := ExceptT EditError (StateT Recall (Except Breach))

abbrev EditM := ExceptT EditError (StateT Engine (Except Breach))

/-- Stops if the user has asked for it; the request is then done with. -/
def Query.checkInterrupt : Query Unit := do
  if (← get).interrupted then
    modify fun r => { r with interrupted := false }
    throw .interrupted

/-- Refuses to let the window grow past the limit of lines. -/
def View.checkCapacity (v : View) (adding : Nat) : Except EditError Unit :=
  if v.limits.lines < v.window.dol + adding then throw (.tooManyLines v.limits.lines)
  else pure ()

namespace Engine

def view (e : Engine) : View := ⟨e.window, e.pool, e.limits⟩

def remembered (e : Engine) : Recall :=
  ⟨e.window.lastSearch, e.window.lastReplacement, e.interrupted⟩

def withRecall (e : Engine) (r : Recall) : Engine :=
  { e.setWindow { e.window with lastSearch := r.search, lastReplacement := r.replacement } with
    interrupted := r.interrupted }

end Engine

namespace EditM

/-- Looks around in the current window. -/
def query (q : View → Query α) : EditM α :=
  ExceptT.mk fun e => do
    let (answer, r) ← (q e.view).run.run e.remembered
    return (answer, e.withRecall r)

/-- Changes the current window without touching the pool. -/
def modifyWindow (f : Window → Window) : EditM Unit :=
  modify fun e => e.setWindow (f e.window)

/-- Changes the current window together with the pool. -/
def onWindow (f : Window → Pool → Except Breach (Window × Pool)) : EditM Unit := do
  let e ← get
  let (w, p) ← f e.window e.pool
  set { e.setWindow w with pool := p }

def goto (n : Nat) : EditM Unit := onWindow fun w p => return (← w.goto n, p)

/-- Records the current window as the state to come back to. -/
def snapshot [CountLimit] : EditM Unit := do
  let e ← get
  let (undo, w, p) ← e.session.undo.capture e.window e.pool
  set { e with pool := p, session := { e.session with current := w, undo := undo } }

def undo : EditM Unit := do
  let e ← get
  match e.session.undo.undo? e.window with
  | some (undo, w) => set { e with session := { e.session with current := w, undo := undo } }
  | none => throw .nothingToUndo

/-- Runs an action; an error becomes an answer. -/
def attempt (x : EditM α) : EditM (Except EditError α) :=
  ExceptT.mk fun e => do
    let (answer, e) ← x.run.run e
    return (.ok answer, e)

end EditM

end LineEditor
