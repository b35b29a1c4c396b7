import LineEditor.Regex.Parser.Escape

/-!
# Brackets

Classes of characters between brackets, with ranges, named classes, set operations and brackets within
brackets. Open brackets are kept on a stack. Every part carries its nesting depth beside it, counted
as the nest limit counts it.
-/

namespace LineEditor.Regex

/-- A part and its depth. -/
abbrev Deep (α : Type) := α × Nat

def unionOf : List (Deep ClassTree) → Deep ClassTree
  | [] => (.nothing, 0)
  | [item] => item
  | item :: items =>
    let all := items.foldl (fun acc i => (ClassTree.union i.1 acc.1, max i.2 acc.2)) item
    (all.1, all.2 + 1)

/-- One level of open brackets: the items so far, last first, and a set operation that waits for
its right side. -/
structure ClassLevel where
  items : List (Deep ClassTree)
  pending : Option (SetOp × Deep ClassTree)

/-- Everything read at a level, the waiting operation applied. -/
def ClassLevel.close (level : ClassLevel) : Deep ClassTree :=
  let right := unionOf level.items
  match level.pending with
  | none => right
  | some (op, left) => (.combine op left.1 right.1, max left.2 right.2 + 1)

def ClassLevel.operate (level : ClassLevel) (op : SetOp) : ClassLevel :=
  ⟨[], some (op, level.close)⟩

def ClassLevel.push (level : ClassLevel) (item : Deep ClassTree) : ClassLevel :=
  { level with items := item :: level.items }

/-- Hyphens right after the opening are literals. -/
def readHyphens (verbose : Bool) (items : List (Deep ClassTree)) :
    Nat → Chars → Except Fault (List (Deep ClassTree) × Chars)
  | _, [] => .error .classUnclosed
  | fuel + 1, '-' :: cs =>
    readHyphens verbose ((.literal ⟨'-', false⟩, 0) :: items) fuel (skipIgnored verbose cs)
  | _, cs => .ok (items, cs)

/-- The opening of a bracket after `[`: whether it is negated, and the literals that only the first
place makes literals. -/
def openClass (verbose : Bool) (cs : Chars) :
    Except Fault (Bool × List (Deep ClassTree) × Chars) := do
  let (negated, cs) :=
    match skipIgnored verbose cs with
    | '^' :: rest => (true, skipIgnored verbose rest)
    | cs => (false, cs)
  let (items, cs) ← readHyphens verbose [] (cs.length + 1) cs
  match items, cs with
  | [], ']' :: rest =>
    match skipIgnored verbose rest with
    | [] => .error .classUnclosed
    | cs => .ok (negated, [(.literal ⟨']', false⟩, 0)], cs)
  | items, cs => .ok (negated, items, cs)

def asciiClass? (name : Chars) : Option AsciiClass :=
  match String.ofList name with
  | "alnum" => some .alnum
  | "alpha" => some .alpha
  | "ascii" => some .ascii
  | "blank" => some .blank
  | "cntrl" => some .cntrl
  | "digit" => some .digit
  | "graph" => some .graph
  | "lower" => some .lower
  | "print" => some .print
  | "punct" => some .punct
  | "space" => some .space
  | "upper" => some .upper
  | "word" => some .word
  | "xdigit" => some .xdigit
  | _ => none

/-- A named class such as `[:alpha:]` at the front; a text that is none opens a bracket instead. -/
def readAsciiClass? (cs : Chars) : Option (ClassTree × Chars) :=
  match cs with
  | '[' :: ':' :: rest =>
    let (negated, rest) :=
      match rest with
      | '^' :: rest => (true, rest)
      | rest => (false, rest)
    let name := rest.takeWhile (· != ':')
    match rest.drop name.length with
    | ':' :: ']' :: rest => (asciiClass? name).map fun c => (.ascii c negated, rest)
    | _ => none
  | _ => none

def readClassAtom (verbose : Bool) : Chars → Except Fault (Atom × Chars)
  | [] => .error .classUnclosed
  | '\\' :: cs => readEscape verbose cs
  | c :: cs => .ok (.literal ⟨c, false⟩, cs)

def Atom.toItem : Atom → Except Fault ClassTree
  | .literal l => .ok (.literal l)
  | .shorthand c n => .ok (.shorthand c n)
  | .property p n => .ok (.property p n)
  | .assertion _ => .error .classEscapeInvalid

def Atom.toBound : Atom → Except Fault Literal
  | .literal l => .ok l
  | _ => .error .classRangeBound

def readClassItem (verbose : Bool) (cs : Chars) : Except Fault (ClassTree × Chars) := do
  let (first, rest) ← readClassAtom verbose cs
  match skipIgnored verbose rest with
  | [] => .error .classUnclosed
  | '-' :: rest =>
    match peekSecond verbose ('-' :: rest) with
    | some ']' | some '-' => return (← first.toItem, '-' :: rest)
    | _ =>
      match skipIgnored verbose rest with
      | [] => .error .classUnclosed
      | cs =>
        let (last, rest) ← readClassAtom verbose cs
        let lo ← first.toBound
        let hi ← last.toBound
        if lo.char ≤ hi.char then return (.range lo hi, rest) else .error .classRangeOrder
  | rest => return (← first.toItem, rest)

def setOp? : Chars → Option SetOp
  | '&' :: '&' :: _ => some .intersection
  | '-' :: '-' :: _ => some .difference
  | '~' :: '~' :: _ => some .symmetricDifference
  | _ => none

/-- Reads on inside brackets: `negated` and `level` are those of the innermost one, `outer` holds
the others from the inside out. -/
def readClassBody (verbose : Bool) (negated : Bool) (level : ClassLevel)
    (outer : List (Bool × ClassLevel)) :
    Nat → Chars → Except Fault (Deep (Bool × ClassTree) × Chars)
  | 0, _ => .error .classUnclosed
  | fuel + 1, cs =>
    match skipIgnored verbose cs with
    | [] => .error .classUnclosed
    | '[' :: rest =>
      match readAsciiClass? ('[' :: rest) with
      | some (item, rest) => readClassBody verbose negated (level.push (item, 0)) outer fuel rest
      | none => do
        let (innerNegated, items, rest) ← openClass verbose rest
        readClassBody verbose innerNegated ⟨items, none⟩ ((negated, level) :: outer) fuel rest
    | ']' :: rest =>
      let body := level.close
      match outer with
      | [] => .ok (((negated, body.1), body.2 + 1), rest)
      | (outerNegated, outerLevel) :: outer =>
        let item := (ClassTree.bracketed negated body.1, body.2 + 1)
        readClassBody verbose outerNegated (outerLevel.push item) outer fuel rest
    | cs =>
      match setOp? cs with
      | some op => readClassBody verbose negated (level.operate op) outer fuel (cs.drop 2)
      | none => do
        let (item, rest) ← readClassItem verbose cs
        readClassBody verbose negated (level.push (item, 0)) outer fuel rest

def readClass (verbose : Bool) (cs : Chars) : Except Fault (Deep Tree × Chars) := do
  let (negated, items, rest) ← openClass verbose cs
  let (((negated, body), depth), rest) ←
    readClassBody verbose negated ⟨items, none⟩ [] (cs.length + 1) rest
  return ((.bracketed negated body, depth), rest)

end LineEditor.Regex
