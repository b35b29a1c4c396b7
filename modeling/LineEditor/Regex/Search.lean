import LineEditor.Regex.Look
import LineEditor.Regex.Program

/-!
# Searching

All ways to match are followed side by side, one byte of the text at a time. The threads are kept in
the order of preference, so the first one that accepts hides those behind it, and the leftmost match
comes before all later ones. At each place an instruction is visited once: a second thread there
could only repeat what the preferred one does.
-/

namespace LineEditor.Regex

/-- The places noted by a thread, by number. -/
abbrev Slots := Array (Option Nat)

/-- A way to match: the next instruction, and how many more bytes the last character has. -/
structure Thread where
  pc : Nat
  wait : Nat
  slots : Slots
  deriving Repr

/-- What the threads at one place lead to. -/
structure Front where
  /-- The instructions visited at this place, one bit each. -/
  seen : Nat
  /-- The threads for the next place, last one first. -/
  next : List Thread
  /-- The match of the thread that accepted here; what comes behind it is given up. -/
  found : Option Slots
  deriving Repr

/-- A place in a text: what is before it, backwards, what is after it, and its offset. -/
structure Place where
  before : Bytes
  after : Bytes
  offset : Nat
  deriving Repr

/-- Follows the instructions on the stack as far as they go without a byte. -/
def Front.explore (p : Program) (place : Place) : Nat → List (Nat × Slots) → Front → Front
  | 0, _, f => f
  | _ + 1, [], f => f
  | fuel + 1, (pc, slots) :: stack, f =>
    if f.seen.testBit pc then explore p place fuel stack f
    else
      let f := { f with seen := f.seen ||| 1 <<< pc }
      match p[pc]? with
      | none => explore p place fuel stack f
      | some .accept => { f with found := some slots }
      | some (.split first second) =>
        explore p place fuel ((first, slots) :: (second, slots) :: stack) f
      | some (.save slot next) =>
        explore p place fuel ((next, slots.setIfInBounds slot (some place.offset)) :: stack) f
      | some (.look l next) =>
        if l.holds place.before place.after then explore p place fuel ((next, slots) :: stack) f
        else explore p place fuel stack f
      | some (.byte b next) =>
        if startsWith b place.after then
          explore p place fuel stack { f with next := ⟨next, 0, slots⟩ :: f.next }
        else explore p place fuel stack f
      | some (.byteIn s next) =>
        if place.after.head?.any fun b => s.contains b.toNat then
          explore p place fuel stack { f with next := ⟨next, 0, slots⟩ :: f.next }
        else explore p place fuel stack f
      | some (.codePoint s next) =>
        match Utf8.decode place.after with
        | some (code, n) =>
          if s.contains code then
            explore p place fuel stack { f with next := ⟨next, n - 1, slots⟩ :: f.next }
          else explore p place fuel stack f
        | none => explore p place fuel stack f

/-- Takes the threads through one place, the preferred ones first, until one accepts. -/
def Front.run (p : Program) (place : Place) : List Thread → Front → Front
  | [], f => f
  | t :: threads, f =>
    if t.wait > 0 then
      run p place threads { f with next := { t with wait := t.wait - 1 } :: f.next }
    else
      let f := f.explore p place (2 * p.size + 2) [(t.pc, t.slots)]
      match f.found with
      | some _ => f
      | none => run p place threads f

/-- The threads after one place, and the best match so far. While there is no match, a new thread
starts at each place, behind the others. -/
def Code.visit (c : Code) (place : Place) (threads : List Thread) (best : Option Slots) :
    List Thread × Option Slots :=
  let fresh : List Thread :=
    if best.isSome then [] else [⟨c.entry, 0, Array.replicate (2 * c.groups) none⟩]
  let front := Front.run c.program place (threads ++ fresh) ⟨0, [], none⟩
  (front.next.reverse, front.found <|> best)

def Code.scan (c : Code) (before : Bytes) (offset : Nat) (threads : List Thread)
    (best : Option Slots) : Bytes → Option Slots
  | [] => (c.visit ⟨before, [], offset⟩ threads best).2
  | b :: rest =>
    let (next, best) := c.visit ⟨before, b :: rest, offset⟩ threads best
    if next.isEmpty && best.isSome then best
    else scan c (b :: before) (offset + 1) next best rest

/-- A match: where it starts and stops, and where its groups do, the first group first. A group that
took no part has no place. -/
structure Match where
  start : Nat
  stop : Nat
  groups : List (Option (Nat × Nat))
  deriving Repr, DecidableEq

/-- The place of a group; group 0 is the whole match. -/
def Match.group? (m : Match) (i : Nat) : Option (Nat × Nat) :=
  match i with
  | 0 => some (m.start, m.stop)
  | i + 1 => m.groups[i]?.join

def pairs : List (Option Nat) → List (Option (Nat × Nat))
  | some a :: some b :: rest => some (a, b) :: pairs rest
  | _ :: _ :: rest => none :: pairs rest
  | _ => []

def Match.ofSlots? (slots : Slots) : Option Match :=
  match pairs slots.toList with
  | some (start, stop) :: groups => some ⟨start, stop, groups⟩
  | _ => none

/-- The first match in `line` at or after `start`; the text before `start` is still seen. -/
def Code.search (c : Code) (line : Bytes) (start : Nat) : Option Match :=
  if line.length < start then none
  else (c.scan (line.take start).reverse start [] none (line.drop start)).bind Match.ofSlots?

end LineEditor.Regex
