/-!
# Sets of code points

A set is a list of closed ranges in increasing order with gaps between them. Byte sets are the same
type below 256; the complement takes the largest element of the universe.
-/

namespace LineEditor.Unicode

def maxCode : Nat := 0x10FFFF

/-- A set of numbers as increasing closed ranges that neither overlap nor touch. -/
structure CodeSet where
  ranges : List (Nat × Nat)
  deriving Repr, DecidableEq, Inhabited

namespace CodeSet

def empty : CodeSet := ⟨[]⟩

/-- Adds `lo..hi` to increasing ranges, joining those it meets or touches. -/
def insertRange (lo hi : Nat) : List (Nat × Nat) → List (Nat × Nat)
  | [] => [(lo, hi)]
  | (a, b) :: rest =>
    if hi + 1 < a then (lo, hi) :: (a, b) :: rest
    else if b + 1 < lo then (a, b) :: insertRange lo hi rest
    else insertRange (min lo a) (max hi b) rest

/-- The set with the range `lo..hi` added; nothing is added when `hi < lo`. -/
def insert (s : CodeSet) (lo hi : Nat) : CodeSet :=
  if hi < lo then s else ⟨insertRange lo hi s.ranges⟩

def ofRanges (ranges : List (Nat × Nat)) : CodeSet :=
  ranges.foldl (fun s r => s.insert r.1 r.2) empty

def singleton (c : Nat) : CodeSet := ⟨[(c, c)]⟩

def union (s t : CodeSet) : CodeSet :=
  t.ranges.foldl (fun acc r => acc.insert r.1 r.2) s

/-- The gaps from `next` on, up to `top`. -/
def gaps (top : Nat) (next : Nat) : List (Nat × Nat) → List (Nat × Nat)
  | [] => if next ≤ top then [(next, top)] else []
  | (a, b) :: rest =>
    if next < a then (next, a - 1) :: gaps top (b + 1) rest else gaps top (b + 1) rest

/-- Everything up to `top` that is not in the set. -/
def complement (s : CodeSet) (top : Nat) : CodeSet :=
  ⟨gaps top 0 s.ranges⟩

def inter (s t : CodeSet) (top : Nat) : CodeSet :=
  ((s.complement top).union (t.complement top)).complement top

def diff (s t : CodeSet) (top : Nat) : CodeSet :=
  s.inter (t.complement top) top

def symmDiff (s t : CodeSet) (top : Nat) : CodeSet :=
  (s.union t).diff (s.inter t top) top

/-- Membership in increasing ranges: the search stops at the first range above `c`. -/
def memRanges (c : Nat) : List (Nat × Nat) → Bool
  | [] => false
  | (a, b) :: rest => if c < a then false else if c ≤ b then true else memRanges c rest

def contains (s : CodeSet) (c : Nat) : Bool :=
  memRanges c s.ranges

/-- Closes a set of bytes under the case of ASCII letters. -/
def foldAsciiCase (s : CodeSet) : CodeSet :=
  (List.range 26).foldl (fun acc i =>
    if s.contains (65 + i) || s.contains (97 + i) then
      (acc.insert (65 + i) (65 + i)).insert (97 + i) (97 + i)
    else acc) s

end CodeSet

end LineEditor.Unicode
