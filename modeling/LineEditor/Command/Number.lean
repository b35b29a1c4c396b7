/-!
# Numbers in commands

Line numbers and counts fit into 64 bits; offsets have a sign and stop at the ends of their range
instead of leaving it.
-/

namespace LineEditor.Number

def maxCount : Nat := 0xffffffffffffffff

def maxOffset : Nat := 0x7fffffffffffffff

def ofDigits (digits : List Char) : Nat :=
  digits.foldl (fun n c => 10 * n + (c.toNat - 48)) 0

/-- The value of decimal digits, if it is not above `top`. -/
def ofDigits? (top : Nat) (digits : List Char) : Option Nat :=
  if ofDigits digits ≤ top then some (ofDigits digits) else none

def saturate (n : Int) : Int := max (-(maxOffset + 1 : Int)) (min n maxOffset)

end LineEditor.Number
