import LineEditor.Unicode.Packed

/-!
# Simple case folding

Code points that fold to the same code point form an orbit. A set is closed under folding by adding
the whole of every orbit it meets.
-/

namespace LineEditor.Unicode

/-- The orbits with more than one member, in the order of their first members: for each its size,
the distance of its first member from that of the orbit before, and the gaps between members. -/
def packedOrbits : List String :=
  ["cCnBgcbBgcbBgcbBgcbBgcbBgcbBgcbBgcbBgcbBgdbBgMKlcbBgcbBgcbBgcbBgcbBgcbBgcbBgdbBgKicbBgcbBgcb",
   "BgcbBgcbBgcbBgcbBgdDnBCpBgclBgcbBgcbBgcbBgcbBgdbBgMFucbBgcbBgcbBgcbBgcbBgcbBgcbBgcbBgcbBgcbB",
   "gcbBgcbBgcbBgcbBgcbBgcbBgcbBgccBgcbBgcbBgcbBgcbBgcbBgcbBgcbLGxcBgErcbbccbccbccbccbccbccbccbc",
   "cbccbccbccbccbccbccbccbccbccbccbccbccbccbccbccbcebccbccbcdbccbccbccbccbccbccbccbcdbccbccbccb",
   "ccbccbccbccbccbccbccbccbccbccbccbccbccbccbccbccbccbccbccbcdbccbccbcdHncbIccbbccbccHycbbccHxc",
   "bHxcbbcdDbcbHucbHvcbbccHxcbHzcbDtcbIdcbIbcbbccGhccIdcbIfcbFacbIgcbbccbccbccIkcbbccIkcdbccIkc",
   "bbccIjcbIjcbbccbccIlcbbcebcdCedfbbddbbddbbcdbccbccbccbccbccbccbccbcdbccbccbccbccbccbccbccbcc",
   "bddbbcdbcebccbccbccbccbccbccbccbccbccbccbccbccbccbccbccbccbccbccbccbcebccbccbccbccbccbccbccb",
   "ccbciPZfcbbcdPZccbPZzcbPZzcbbcdCrcbCtcbbccbccbccbccbccPYtcbPYqcbPYsckCKPrcfCKPnceCKOecbCKPgc",
   "eCKPgcbPXfcbCKPdcfPXlcmPWpcfCKPfcfCKOgcwCKNlcbCKNieGlDgBgKPxcBrbccbcebcfFacbFacbFaccEmchBmcc",
   "BlcbBlcbBlccCmccClcbClccBgdbBgBecbBgcbBgdbBgCmcbBgcbBgebBgzBjdcBgCccbBgccBgcbBgcbBgdbBgwdbBg",
   "BwdcBfbcbBgcbBgdbBgpcbBgcbBgdbBgLDdcbBgcbBgcBkicjbccbccbccbccbccbccbccbccbccbccbccbcehcfbcdb",
   "cgDccbDccbDccbDccbDccbDccbDccbDccbDccbDccbDccbDccbDccbDccbDccbDccbBgcbBgdbBgJFicbBgdbBgJFhcb",
   "BgcbBgcbBgcbBgcbBgcbBgcbBgcbBgcbBgdbBgJEycbBgcbBgdbBgJEwebBgJEwbcbBgcbBgcbBgcbBgcbBgcbBgcbBg",
   "dbBgJEqcbBgcbBgcbBgcbBgcbBgcBxbdcbJDsccbccbccbccbccbccbccbccbccbccbccbccbccbccbccbckbccbccbc",
   "cbccbccbccbccbccbccbccbccbccbccbccbccbccbccbccbccbccbccbccbccbccbccbccbccpcbbccbccbccbccbccb",
   "ccbcdbccbccbccbccbccbccbccbccbccbccbccbccbccbccbccbccbccbccbccbccbccbccbccbccbccbccbccbccbcc",
   "bccbccbccbccbccbccbccbccbccbccbccbccbccbccbccbccbccbccbcdBwcbBwcbBwcbBwcbBwcbBwcbBwcbBwcbBwc",
   "bBwcbBwcbBwcbBwcbBwcbBwcbBwcbBwcbBwcbBwcbBwcbBwcbBwcbBwcbBwcbBwcbBwcbBwcbBwcbBwcbBwcbBwcbBwc",
   "bBwcbBwcbBwcbBwcbBwcbBwcEHeKTkcbKTkcbKTkcbKTkcbKTkcbKTkcbKTkcbKTkcbKTkcbKTkcbKTkcbKTkcbKTkcb",
   "KTkcbKTkcbKTkcbKTkcbKTkcbKTkcbKTkcbKTkcbKTkcbKTkcbKTkcbKTkcbKTkcbKTkcbKTkcbKTkcbKTkcbKTkcbKT",
   "kcbKTkcbKTkcbKTkcbKTkcbKTkcbKTkccKTkcgKTkcdELscbELscbELscbELscbELscbELscbELscbELscbELscbELsc",
   "bELscbELscbELscbELscbELscbELscbELscbELscbELscbELscbELscbELscbELscbELscbELscbELscbELscbELscbE",
   "LscbELscbELscbELscbELscbELscbELscbELscbELscbELscbELscbELscbELscbELscbELscdELscbELscbELscZxCF",
   "MucbCFMucbCFMucbCFMucbCFMucbCFMucbCFMucbCFMucbCFMucbCFMucbCFMucbCFMucbCFMucbCFMucbCFMucbCFMu",
   "cbCFMucbCFMucbCFMucbCFMucbCFMucbCFMucbCFMucbCFMucbCFMucbCFMucbCFMucbCFMucbCFMucbCFMucbCFMucb",
   "CFMucbCFMucbCFMucbCFMucbCFMucbCFMucbCFMucbCFMucbCFMucbCFMucbCFMucbCFMucbCFMucbCFMucbCFMucbCF",
   "MucbCFMucbCFMucbCFMucbCFMucbCFMucbCFMucbCFMucbCFMucbCFMucbCFMucbCFMucbCFMucbCFMucbCFMucbCFMu",
   "cbCFMucbCFMucbCFMucbCFMucbCFMucbCFMucbCFMucbCFMucbCFMucbCFMucbCFMucbCFMucbCFMucbCFMucbCFMucb",
   "CFMucbCFMucbCFMucbicbicbicbicbicbidDGlCAEkbcJhCAGyceFQscrCAIycEkbccbccbccbccbccbccbccbccbccb",
   "ccbccbccbccbccbccbccbccbccbccbccbccbccbccbccbccbccbccbccbccbccbccbccbccbccbccbccbccbccbccbcc",
   "bccbccbccbccbccbccbccbdcbCgccbccbccbccbccbccbccbccbccbccbccbccbccbccbccbccbccbccbccbccbccbcc",
   "bccbccbccbccbcmbccbccbccbccbccbccbccbccbccbccbccbccbccbccbccbccbccbccbccbccbccbccbccbccbccbc",
   "cbccbccbccbccbccbccbccbccbccbccbccbccbccbccbccbccbccbccbccbccbccbccicbicbicbicbicbicbicbicji",
   "cbicbicbicbicbiclicbicbicbicbicbicbicbicjicbicbicbicbicbicbicbicjicbicbicbicbicbicmicciccicc",
   "icjicbicbicbicbicbicbicbicjCwcbCwcbDicbDicbDicbDicbDwcbDwcbEycbEycbEicbEicbEwcbEwcdicbicbicb",
   "icbicbicbicbicjicbicbicbicbicbicbicbicjicbicbicbicbicbicbicbicjicbiccjcqjcnicbicpicbicehcojc",
   "MhBccBuqcbqcbqcbqcbqcbqcbqcbqcbqcbqcbqcbqcbqcbqcbqcbqcubcBFnBacbBacbBacbBacbBacbBacbBacbBacb",
   "BacbBacbBacbBacbBacbBacbBacbBacbBacbBacbBacbBacbBacbBacbBacbBacbBacbBacCSvBwcbBwcbBwcbBwcbBw",
   "cbBwcbBwcbBwcbBwcbBwcbBwcbBwcbBwcbBwcbBwcbBwcbBwcbBwcbBwcbBwcbBwcbBwcbBwcbBwcbBwcbBwcbBwcbBw",
   "cbBwcbBwcbBwcbBwcbBwcbBwcbBwcbBwcbBwcbBwcbBwcbBwcbBwcbBwcbBwcbBwcbBwcbBwcbBwcbBwcBxbchbccbcc",
   "bchbcdbclbccbccbccbccbccbccbccbccbccbccbccbccbccbccbccbccbccbccbccbccbccbccbccbccbccbccbccbc",
   "cbccbccbccbccbccbccbccbccbccbccbccbccbccbccbccbccbccbccbccbccbccbcjbccbcfbcBTYkbccbccbccbccb",
   "cebccbccbccbccbccbccbccbccbccbccbccbccbccbccbccbccbcubccbccbccbccbccbccbccbccbccbccbccbccbcc",
   "bcFgbccbccbccbccbccbccbcebccbccbccbccbccbccbccbccbccbccbccbccbccbccbccbccbccbccbccbccbccbccb",
   "ccbccbccbccbccbccbccbccbclbccbcdbccbccbccbccbcfbcfbccbccBwccbccbccbccbccbccbccbccbccbccbclBJ",
   "scbbccbccbccbccbccbccbccbcfbccbchbcgbccbcBdbcBHAiBgcbBgcbBgcbBgcbBgcbBgcbBgcbBgcbBgcbBgcbBgc",
   "bBgcbBgcbBgcbBgcbBgcbBgcbBgcbBgcbBgcbBgcbBgcbBgcbBgcbBgcbBgcBVaBocbBocbBocbBocbBocbBocbBocbB",
   "ocbBocbBocbBocbBocbBocbBocbBocbBocbBocbBocbBocbBocbBocbBocbBocbBocbBocbBocbBocbBocbBocbBocbB",
   "ocbBocbBocbBocbBocbBocbBocbBocbBocbBocFhBocbBocbBocbBocbBocbBocbBocbBocbBocbBocbBocbBocbBocb",
   "BocbBocbBocbBocbBocbBocbBocbBocbBocbBocbBocbBocbBocbBocbBocbBocbBocbBocbBocbBocbBocbBocbBocG",
   "bBncbBncbBncbBncbBncbBncbBncbBncbBncbBncbBnccBncbBncbBncbBncbBncbBncbBncbBncbBncbBncbBncbBnc",
   "bBncbBncbBnccBncbBncbBncbBncbBncbBncbBnccBncbBncCQdCmcbCmcbCmcbCmcbCmcbCmcbCmcbCmcbCmcbCmcbC",
   "mcbCmcbCmcbCmcbCmcbCmcbCmcbCmcbCmcbCmcbCmcbCmcbCmcbCmcbCmcbCmcbCmcbCmcbCmcbCmcbCmcbCmcbCmcbC",
   "mcbCmcbCmcbCmcbCmcbCmcbCmcbCmcbCmcbCmcbCmcbCmcbCmcbCmcbCmcbCmcbCmcbCmcENmBgcbBgcbBgcbBgcbBgc",
   "bBgcbBgcbBgcbBgcbBgcbBgcbBgcbBgcbBgcbBgcbBgcbBgcbBgcbBgcbBgcbBgcbBgcbBgcbBgcbBgcbBgcbBgcbBgc",
   "bBgcbBgcbBgcbBgcBGJxBgcbBgcbBgcbBgcbBgcbBgcbBgcbBgcbBgcbBgcbBgcbBgcbBgcbBgcbBgcbBgcbBgcbBgcb",
   "BgcbBgcbBgcbBgcbBgcbBgcbBgcbBgcbBgcbBgcbBgcbBgcbBgcbBgcBULlBicbBicbBicbBicbBicbBicbBicbBicbB",
   "icbBicbBicbBicbBicbBicbBicbBicbBicbBicbBicbBicbBicbBicbBicbBicbBicbBicbBicbBicbBicbBicbBicbB",
   "icbBicbBi"]

/-- The members of an orbit after `first`, from the gaps between them. -/
def orbitMembers (first : Nat) : List Nat → List Nat
  | [] => [first]
  | gap :: gaps => first :: orbitMembers (first + gap) gaps

/-- Reads orbits until the numbers or the fuel run out. -/
def orbitsFrom : Nat → Nat → List Nat → List (List Nat)
  | fuel + 1, previous, size :: step :: rest =>
    orbitMembers (previous + step) (rest.take (size - 1)) ::
      orbitsFrom fuel (previous + step) (rest.drop (size - 1))
  | _, _, _ => []

/-- The orbits of simple case folding that have more than one member. -/
def foldOrbits : List (List Nat) :=
  let numbers := unpack packedOrbits
  orbitsFrom numbers.length 0 numbers

/-- The set with every code point that folds like a member. -/
def CodeSet.foldCase (s : CodeSet) : CodeSet :=
  foldOrbits.foldl (fun acc orbit =>
    if orbit.any s.contains then orbit.foldl (fun acc c => acc.insert c c) acc else acc) s

end LineEditor.Unicode
