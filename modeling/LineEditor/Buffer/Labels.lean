import LineEditor.Buffer.Breach

/-!
# Labels

A window has one label for each small letter. A label names a line or is unset.
-/

namespace LineEditor

/-- The line of each label, `a` to `z`. -/
structure Labels where
  lines : Vector (Option Nat) 26
  deriving Repr, DecidableEq

namespace Labels

def none : Labels := ⟨Vector.replicate 26 Option.none⟩

/-- The place of a label. -/
def index? (name : Char) : Option (Fin 26) :=
  if h : 97 ≤ name.toNat ∧ name.toNat < 123 then some ⟨name.toNat - 97, by omega⟩
  else Option.none

def isName (c : Char) : Bool := (index? c).isSome

def nameAt (i : Fin 26) : Char := Char.ofNat (97 + i)

def get? (l : Labels) (name : Char) : Option Nat :=
  match index? name with
  | some i => l.lines[i]
  | Option.none => Option.none

/-- Sets or clears a label; other characters name none. -/
def put (l : Labels) (name : Char) (line : Option Nat) : Labels :=
  match index? name with
  | some i => ⟨l.lines.set i line⟩
  | Option.none => l

/-- Lets each label that names a line name the line given for it, or none. -/
def renumber (l : Labels) (rule : Nat → Except Breach (Option Nat)) : Except Breach Labels := do
  let lines ← l.lines.toList.mapM (Option.bindM rule)
  return ⟨.ofFn fun i => lines[i]?.join⟩

def toList (l : Labels) : List (Char × Nat) :=
  (List.finRange 26).filterMap fun i => l.lines[i].map fun line => (nameAt i, line)

def named (l : Labels) : List Nat := l.toList.map Prod.snd

/-- Puts the labels that name line `n` in `before` on line `n` again. -/
def hold (l before : Labels) (n : Nat) : Labels :=
  ⟨Vector.zipWith (fun now was => if was = some n then some n else now) l.lines before.lines⟩

end Labels

end LineEditor
