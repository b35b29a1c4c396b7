import LineEditor.Regex.Parser.Bracket
import LineEditor.Regex.Parser.Opening
import LineEditor.Regex.Parser.Repetition

/-!
# Reading a pattern

The text is read from left to right and the first fault ends the reading. Open groups are kept on an
explicit stack, as open brackets are, so every step takes at least one character and the length of
the text bounds the number of steps.
-/

namespace LineEditor.Regex

/-- What an open group waits for: its own kind, and what stood around it. -/
inductive OpenGroup where
  | capture (index : Nat)
  | plain (changes : FlagChanges)

/-- One level of open groups: the parts of the branch so far and the branches before it, both last
first. -/
structure Level where
  parts : List (Deep Tree)
  branches : List (Deep Tree)

def sequenceOf : List (Deep Tree) → Deep Tree
  | [] => (.empty, 0)
  | [part] => part
  | part :: parts =>
    let all := parts.foldl (fun acc p => (Tree.seq p.1 acc.1, max p.2 acc.2)) part
    (all.1, all.2 + 1)

def Level.close (level : Level) : Deep Tree :=
  let last := sequenceOf level.parts
  match level.branches with
  | [] => last
  | branches =>
    let all := branches.foldl (fun acc b => (Tree.alt b.1 acc.1, max b.2 acc.2)) last
    (all.1, all.2 + 1)

def Level.push (level : Level) (part : Deep Tree) : Level :=
  { level with parts := part :: level.parts }

/-- An open group around the level being read. -/
structure Frame where
  group : OpenGroup
  level : Level
  /-- Whether blanks meant nothing before the group. -/
  verbose : Bool

/-- What the reading of a pattern keeps. -/
structure State where
  level : Level
  frames : List Frame
  verbose : Bool
  /-- The number of the last capture group. -/
  captures : Nat
  names : List Chars

def State.closeGroup (s : State) : Except Fault State :=
  match s.frames with
  | [] => .error .groupUnopened
  | frame :: frames =>
    let body := s.level.close
    let tree :=
      match frame.group with
      | .capture index => Tree.capture index body.1
      | .plain changes => Tree.group changes body.1
    .ok { s with
      level := frame.level.push (tree, body.2 + 1), frames := frames, verbose := frame.verbose }

/-- Opens a group, or takes a directive into the level. -/
def State.openGroup (s : State) : Opening → Except Fault State
  | .directive changes =>
    .ok { s with
      level := s.level.push (.setFlags changes, 0)
      verbose := (changes.value? .verbose).getD s.verbose }
  | .plain changes =>
    .ok { s with
      level := ⟨[], []⟩, frames := ⟨.plain changes, s.level, s.verbose⟩ :: s.frames
      verbose := (changes.value? .verbose).getD s.verbose }
  | .numbered =>
    .ok { s with
      level := ⟨[], []⟩, frames := ⟨.capture (s.captures + 1), s.level, s.verbose⟩ :: s.frames
      captures := s.captures + 1 }
  | .named name =>
    if s.names.contains name then .error .groupNameDuplicate
    else
      .ok { s with
        level := ⟨[], []⟩, frames := ⟨.capture (s.captures + 1), s.level, s.verbose⟩ :: s.frames
        captures := s.captures + 1, names := name :: s.names }

/-- The last part of the level, which a repetition operator repeats. A directive cannot be. -/
def State.takeLast (s : State) : Except Fault (Deep Tree × State) :=
  match s.level.parts with
  | [] | (.setFlags _, _) :: _ => .error .repetitionMissing
  | part :: parts => .ok (part, { s with level := { s.level with parts := parts } })

/-- Repeats a part; a question mark at the front of the rest makes it lazy. -/
def State.pushRepeated (s : State) (part : Deep Tree) (least : Nat) (most : Option Nat)
    (rest : Chars) : State × Chars :=
  let (greedy, rest) :=
    match rest with
    | '?' :: rest => (false, rest)
    | rest => (true, rest)
  ({ s with level := s.level.push (.repeated part.1 least most greedy, part.2 + 1) }, rest)

def Atom.toTree : Atom → Tree
  | .literal l => .literal l
  | .assertion a => .assertion a
  | .shorthand c n => .shorthand c n
  | .property p n => .property p n

/-- Reads one construct at the front of a text that is not empty. -/
def State.step (s : State) (c : Char) (cs : Chars) : Except Fault (State × Chars) :=
  match c with
  | '(' => do
    let (opening, rest) ← readOpening s.verbose cs
    return (← s.openGroup opening, rest)
  | ')' => do return (← s.closeGroup, cs)
  | '|' =>
    .ok ({ s with level := ⟨[], sequenceOf s.level.parts :: s.level.branches⟩ }, cs)
  | '[' => do
    let (part, rest) ← readClass s.verbose cs
    return ({ s with level := s.level.push part }, rest)
  | '?' => do
    let (part, s) ← s.takeLast
    return s.pushRepeated part 0 (some 1) cs
  | '*' => do
    let (part, s) ← s.takeLast
    return s.pushRepeated part 0 none cs
  | '+' => do
    let (part, s) ← s.takeLast
    return s.pushRepeated part 1 none cs
  | '\x7b' => do
    let (part, s) ← s.takeLast
    let ((least, most), rest) ← readBounds s.verbose cs
    let (s, rest) := s.pushRepeated part least most (skipIgnored s.verbose rest)
    match most with
    | some m => if least ≤ m then return (s, rest) else .error .countOrder
    | none => return (s, rest)
  | '\\' => do
    let (atom, rest) ← readEscape s.verbose cs
    return ({ s with level := s.level.push (atom.toTree, 0) }, rest)
  | '.' => .ok ({ s with level := s.level.push (.dot, 0) }, cs)
  | '^' => .ok ({ s with level := s.level.push (.assertion .startLine, 0) }, cs)
  | '$' => .ok ({ s with level := s.level.push (.assertion .endLine, 0) }, cs)
  | c => .ok ({ s with level := s.level.push (.literal ⟨c, false⟩, 0) }, cs)

def State.run (s : State) : Nat → Chars → Except Fault State
  | 0, _ => .ok s
  | fuel + 1, cs =>
    match skipIgnored s.verbose cs with
    | [] => .ok s
    | c :: cs => do
      let (s, rest) ← s.step c cs
      s.run fuel rest

def parse (pattern : Chars) : Except Fault Tree := do
  let s ← State.run ⟨⟨[], []⟩, [], false, 0, []⟩ (pattern.length + 1) pattern
  if s.frames.isEmpty then
    let (tree, depth) := s.level.close
    if depth ≤ nestLimit then return tree else .error .nestedTooDeep
  else .error .groupUnclosed

end LineEditor.Regex
