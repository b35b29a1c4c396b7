import LineEditor.Command.Report
import LineEditor.Engine.Basic

/-!
# Commands and files

The editor does not touch files itself. A command that needs one stops half way: it says what it
asks of the file system and how it goes on with the answer. An answer is what was asked for, or the
words of the file system for why it cannot be had.
-/

namespace LineEditor

/-- What stands at a path. -/
inductive Loaded where
  | file (bytes : Bytes)
  | directory (entries : List (Bytes × Option Suffix))
  deriving Repr, DecidableEq

/-- A command, done or waiting for the file system. -/
inductive Progress where
  | done (report : Report)
  /-- Wants what stands at a path. -/
  | load (path : List Char) (resume : Except String Loaded → EditM Report)
  /-- Wants the bytes of a file. -/
  | read (path : List Char) (resume : Except String Bytes → EditM Report)
  /-- Wants bytes written to a file, or added to it; the answer is their number. -/
  | write (path : List Char) (bytes : Bytes) (append : Bool)
    (resume : Except String Nat → EditM Report)

/-- A file system whose state is a value. -/
structure Storage (σ : Type) where
  load : σ → List Char → Except String Loaded
  read : σ → List Char → Except String Bytes
  write : σ → List Char → Bytes → Bool → Except String Nat × σ
  /-- Begins the log of the editor anew. -/
  beginLog : σ → σ

def Progress.complete (s : Storage σ) (disk : σ) : Progress → EditM Report × σ
  | .done report => (pure report, disk)
  | .load path resume => (resume (s.load disk path), disk)
  | .read path resume => (resume (s.read disk path), disk)
  | .write path bytes append resume =>
    let (answer, disk) := s.write disk path bytes append
    (resume answer, disk)

/-- The answer of the file system about a path, or the error that it is. -/
def ofStorage (path : List Char) (answer : Except String α) : Except EditError α :=
  match answer with
  | .ok a => return a
  | .error text => throw (.io (String.ofList path ++ ": " ++ text))

end LineEditor
