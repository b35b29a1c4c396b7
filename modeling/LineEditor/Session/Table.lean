import LineEditor.Command.Error
import LineEditor.Session.Basic

/-!
# The session table

Sessions stand in slots numbered from 1. A slot is active if it has a session.
-/

namespace LineEditor

/-- The slots from 1 on. -/
structure SessionTable where
  slots : List (Option Session)
  deriving Repr, DecidableEq

namespace SessionTable

def ofSize (max : Nat) : SessionTable := ⟨List.replicate max none⟩

def max (t : SessionTable) : Nat := t.slots.length

def get? (t : SessionTable) (n : Nat) : Option Session :=
  match n with
  | 0 => none
  | i + 1 => t.slots[i]?.join

def isActive (t : SessionTable) (n : Nat) : Bool := (t.get? n).isSome

def put (t : SessionTable) (n : Nat) (s : Option Session) : SessionTable :=
  match n with
  | 0 => t
  | i + 1 => ⟨t.slots.set i s⟩

def checkSlot (t : SessionTable) (n : Nat) : Except EditError Unit :=
  if n = 0 || t.max < n then throw (.badSession n) else pure ()

def install (t : SessionTable) (n : Nat) (s : Session) : Except EditError SessionTable := do
  t.checkSlot n
  if t.isActive n then throw (.sessionActive n)
  return t.put n (some s)

def take (t : SessionTable) (n : Nat) : Except EditError (Session × SessionTable) := do
  t.checkSlot n
  match t.get? n with
  | some s => return (s, t.put n none)
  | none => throw (.sessionInactive n)

def numbers (t : SessionTable) : List Nat := List.range' 1 t.max

def active (t : SessionTable) : List Nat := t.numbers.filter t.isActive

def firstFree? (t : SessionTable) : Option Nat := t.numbers.find? fun n => !t.isActive n

/-- The sessions, by slot. -/
def sessions (t : SessionTable) : List Session := t.slots.filterMap id

end SessionTable

end LineEditor
