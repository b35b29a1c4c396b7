import LineEditor.Unicode.CodeSet

/-!
# Packed tables

Tables of the character standard are kept as lines of letters. A number is written in base 26:
upper-case letters for all digits but the last, a lower-case letter for the last one, so numbers
need no separator. A number may start on one line and end on the next.
-/

namespace LineEditor.Unicode

/-- Reads packed numbers; `acc` holds the digits of the number that is being read. -/
def unpackFrom (acc : Nat) : List Char → List Nat
  | [] => []
  | c :: rest =>
    if c.toNat < 97 then unpackFrom (acc * 26 + (c.toNat - 65)) rest
    else (acc * 26 + (c.toNat - 97)) :: unpackFrom 0 rest

def unpack (packed : List String) : List Nat :=
  unpackFrom 0 (packed.flatMap String.toList)

/-- Ranges from alternating lengths of what is outside and what is inside, starting at `next`. -/
def rangesOfRuns (next : Nat) : List Nat → List (Nat × Nat)
  | skip :: take :: rest =>
    if take = 0 then rangesOfRuns (next + skip) rest
    else (next + skip, next + skip + take - 1) :: rangesOfRuns (next + skip + take) rest
  | _ => []

def CodeSet.ofPacked (packed : List String) : CodeSet :=
  ⟨rangesOfRuns 0 (unpack packed)⟩

/-- The code space cut into runs, each with a length and the number of its class. -/
abbrev Partition := List (Nat × Nat)

namespace Partition

def ofNumbers : List Nat → Partition
  | length :: value :: rest => (length, value) :: ofNumbers rest
  | _ => []

def ofPacked (packed : List String) : Partition :=
  ofNumbers (unpack packed)

/-- Ranges of the runs from `next` on whose class is wanted, in increasing order. -/
def rangesFrom (wanted : Nat → Bool) (next : Nat) : Partition → List (Nat × Nat)
  | [] => []
  | (length, value) :: rest =>
    if wanted value && 0 < length then
      CodeSet.insertRange next (next + length - 1) (rangesFrom wanted (next + length) rest)
    else rangesFrom wanted (next + length) rest

def select (p : Partition) (wanted : Nat → Bool) : CodeSet :=
  ⟨rangesFrom wanted 0 p⟩

def classAt : Partition → Nat → Option Nat
  | [], _ => none
  | (length, value) :: rest, c => if c < length then some value else classAt rest (c - length)

end Partition

end LineEditor.Unicode
