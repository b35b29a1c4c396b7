import LineEditor.Regex.Node

/-!
# Programs

A node is compiled into a list of instructions that name their successors. Compilation runs
backwards: the code for what follows is there first, so each part is handed the place where its
match goes on. Only a loop needs a place that is not there yet; it takes a slot first and fills it
once the body stands.
-/

namespace LineEditor.Regex

open LineEditor.Unicode (CodeSet)

/-- One step of a match. -/
inductive Inst where
  | byte (b : UInt8) (next : Nat)
  | codePoint (s : CodeSet) (next : Nat)
  | byteIn (s : CodeSet) (next : Nat)
  | look (l : Look) (next : Nat)
  /-- Notes the current place under a number. -/
  | save (slot : Nat) (next : Nat)
  /-- Both ways; the first one is preferred. -/
  | split (first second : Nat)
  | accept
  deriving Repr, DecidableEq

abbrev Program := Array Inst

namespace Program

def add (p : Program) (i : Inst) : Nat × Program := (p.size, p.push i)

/-- A choice between going `on` and going `out`, in the order of preference. -/
def choice (greedy : Bool) (on out : Nat) : Inst :=
  if greedy then .split on out else .split out on

def addBytes (next : Nat) (p : Program) : Bytes → Nat × Program
  | [] => (next, p)
  | b :: rest =>
    let (after, p) := addBytes next p rest
    p.add (.byte b after)

def copies (body : Nat → Program → Nat × Program) : Nat → Nat → Program → Nat × Program
  | 0, next, p => (next, p)
  | n + 1, next, p =>
    let (after, p) := copies body n next p
    body after p

/-- Up to `n` copies, each of which may be the end: from there the match goes on at `out`. -/
def optionals (body : Nat → Program → Nat × Program) (greedy : Bool) (out : Nat) :
    Nat → Program → Nat × Program
  | 0, p => (out, p)
  | n + 1, p =>
    let (after, p) := optionals body greedy out n p
    let (entry, p) := body after p
    p.add (choice greedy entry out)

def loop (body : Nat → Program → Nat × Program) (greedy : Bool) (next : Nat) (p : Program) :
    Nat × Program :=
  let (again, p) := p.add .accept
  let (entry, p) := body again p
  (entry, p.setIfInBounds again (choice greedy entry next))

/-- Adds the code of a node whose match goes on at `next`; the result says where it starts. -/
def addNode : Node → Nat → Program → Nat × Program
  | .empty, next, p => (next, p)
  | .bytes bs, next, p => addBytes next p bs
  | .codePoint s, next, p => p.add (.codePoint s next)
  | .byteIn s, next, p => p.add (.byteIn s next)
  | .look l, next, p => p.add (.look l next)
  | .capture index body, next, p =>
    let (stop, p) := p.add (.save (2 * index + 1) next)
    let (entry, p) := addNode body stop p
    p.add (.save (2 * index) entry)
  | .repeated body least (some most) greedy, next, p =>
    let (rest, p) := optionals (addNode body) greedy next (most - least) p
    copies (addNode body) least rest p
  | .repeated body 0 none greedy, next, p =>
    let (entry, p) := loop (addNode body) greedy next p
    p.add (choice greedy entry next)
  | .repeated body (least + 1) none greedy, next, p =>
    let (entry, p) := loop (addNode body) greedy next p
    copies (addNode body) least entry p
  | .seq a b, next, p =>
    let (entry, p) := addNode b next p
    addNode a entry p
  | .alt a b, next, p =>
    let (second, p) := addNode b next p
    let (first, p) := addNode a next p
    p.add (.split first second)

end Program

/-- A program with the place where it starts and the number of its groups, the whole match being the
first. -/
structure Code where
  program : Program
  entry : Nat
  groups : Nat
  deriving Repr

/-- The code of a node; the whole match is group 0. -/
def Code.ofNode (n : Node) : Code :=
  let (entry, program) := Program.addNode (.capture 0 n) 0 #[.accept]
  ⟨program, entry, n.lastCapture + 1⟩

end LineEditor.Regex
