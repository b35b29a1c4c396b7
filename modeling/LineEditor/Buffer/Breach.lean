/-!
# Breaches

The parts of the editor trust each other: a line that a window names is stored, a range handed to a
window lies inside it, and of two numbers the smaller one is taken from the other. Where such trust
would be broken, the operation does not go on with a made-up value but stops with a breach. No input
makes one.
-/

namespace LineEditor

/-- The number under which a line is stored. -/
abbrev Handle := Nat

/-- What is done with a stored line. -/
inductive PoolUse where
  | lookup
  | retain
  | release
  deriving Repr, DecidableEq

/-- A broken promise between two parts of the editor. -/
inductive Breach where
  /-- A handle whose line is no longer stored. -/
  | reclaimed (use : PoolUse) (h : Handle)
  /-- A line with as many references as can be counted. -/
  | countFull (h : Handle)
  /-- Lines `start` to `stop` of a window with `size` lines. -/
  | linesOutside (start stop size : Nat)
  /-- A place behind the last line. -/
  | placeOutside (line size : Nat)
  /-- A run of lines moved to a place inside itself. -/
  | movedInside (start stop after : Nat)
  /-- Bytes from `start` up to `stop` of a line of `size` bytes. -/
  | bytesOutside (start stop size : Nat)
  /-- A text of `size` bytes cut at an offset where no character ends. -/
  | offBorder (offset size : Nat)
  /-- A number taken from a smaller one. -/
  | belowZero (a b : Nat)
  deriving Repr, DecidableEq

def Breach.message : Breach → String
  | reclaimed .lookup h => s!"line map references reclaimed pool handle #{h}"
  | reclaimed .retain h => s!"retain of reclaimed pool handle #{h}"
  | reclaimed .release h => s!"release of reclaimed pool handle #{h}"
  | countFull h => s!"retain of pool handle #{h} with a full count"
  | linesOutside start stop size => s!"lines {start} to {stop} of {size}"
  | placeOutside line size => s!"line {line} of {size}"
  | movedInside start stop after => s!"lines {start} to {stop} moved to {after}"
  | bytesOutside start stop size => s!"bytes {start} to {stop} of {size}"
  | offBorder offset size => s!"byte {offset} of {size} is not a char boundary"
  | belowZero a b => s!"{b} taken from {a}"

/-- What is left of `a` when `b` is taken from it. -/
def difference (a b : Nat) : Except Breach Nat :=
  if a < b then .error (.belowZero a b) else .ok (a - b)

theorem difference_of_le {a b : Nat} (h : b ≤ a) : difference a b = .ok (a - b) :=
  if_neg (Nat.not_lt.mpr h)

end LineEditor
