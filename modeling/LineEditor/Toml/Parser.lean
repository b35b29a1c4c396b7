import LineEditor.Toml.Scalar
import LineEditor.Toml.Text

/-!
# Reading TOML

A document is read line by line into statements: headers and assignments. The statements then build
the table of the document. A document with a fault anywhere has no table.
-/

namespace LineEditor.Toml

/-- One line of a document that is not blank. -/
inductive Statement where
  | header (path : List Key) (key : Key)
  | arrayHeader (path : List Key) (key : Key)
  | assign (path : List Key) (key : Key) (v : Value)
  deriving Repr

namespace Parser

def isBlank (c : Char) : Bool := c = ' ' || c = '\t'

def isBareKey (c : Char) : Bool := c.isAlphanum || c = '_' || c = '-'

def endsWord (c : Char) : Bool :=
  isBlank c || c = '\n' || c = '\r' || c = ',' || c = ']' || c = '\x7d' || c = '#'

def skipBlank (s : List Char) : List Char := s.dropWhile isBlank

def skipComment? (s : List Char) : Option (List Char) :=
  match s with
  | '#' :: s =>
    let rest := s.dropWhile fun c => c ≠ '\n' && c ≠ '\r'
    if (s.take (s.length - rest.length)).any Text.isControl then none else some rest
  | _ => some s

def skipLines? : Nat → List Char → Option (List Char)
  | 0, _ => none
  | fuel + 1, s =>
    match skipBlank s with
    | '\n' :: s | '\r' :: '\n' :: s => skipLines? fuel s
    | '#' :: s => do skipLines? fuel (← skipComment? ('#' :: s))
    | s => some s

/-- What follows the end of a line: blanks, perhaps a comment, and a newline or the end of the
document. -/
def endLine? (s : List Char) : Option (List Char) := do
  match ← skipComment? (skipBlank s) with
  | [] => some []
  | '\n' :: s | '\r' :: '\n' :: s => some s
  | _ => none

def simpleKey? (s : List Char) : Option (Key × List Char) :=
  match s with
  | '"' :: s => Text.line? '"' true 0 s
  | '\'' :: s => Text.line? '\'' false 0 s
  | s =>
    let k := s.takeWhile isBareKey
    if k.isEmpty then none else some (k, s.dropWhile isBareKey)

/-- A key at the front with all that is before its last dot. Blanks may stand around the dots. -/
def key? : Nat → List Char → Option (List Key × Key × List Char)
  | 0, _ => none
  | fuel + 1, s => do
    let (k, s) ← simpleKey? (skipBlank s)
    match skipBlank s with
    | '.' :: s =>
      let (path, last, s) ← key? fuel s
      return (k :: path, last, s)
    | s => return ([], k, s)

/-- How deep arrays and tables may be nested. -/
def maxDepth : Nat := 80

mutual

def value? : Nat → Nat → List Char → Option (Value × List Char)
  | 0, _, _ => none
  | fuel + 1, depth, s =>
    match s with
    | '"' :: s => (Text.afterQuote? '"' s).map fun (text, s) => (.string text, s)
    | '\'' :: s => (Text.afterQuote? '\'' s).map fun (text, s) => (.string text, s)
    | '[' :: s => if depth = 0 then none else items? fuel (depth - 1) [] s
    | '\x7b' :: s => if depth = 0 then none else fields? fuel (depth - 1) [] s
    | s => do
      let word := s.takeWhile fun c => !endsWord c
      let rest := s.dropWhile fun c => !endsWord c
      let time := (rest.drop 1).takeWhile fun c => !endsWord c
      if rest.head? = some ' ' && word.length = 10 && Scalar.isDatetime word &&
          time.head?.any Char.isDigit then
        return (← Scalar.parse? (word ++ ' ' :: time), (rest.drop 1).drop time.length)
      else return (← Scalar.parse? word, rest)

/-- The items of an array up to its closing bracket; those before are in `done`, last one first. -/
def items? : Nat → Nat → List Value → List Char → Option (Value × List Char)
  | 0, _, _, _ => none
  | fuel + 1, depth, done, s => do
    match ← skipLines? (s.length + 1) s with
    | ']' :: s => return (.array done.reverse, s)
    | s =>
      let (v, s) ← value? fuel depth s
      match ← skipLines? (s.length + 1) s with
      | ',' :: s => items? fuel depth (v :: done) s
      | ']' :: s => return (.array (v :: done).reverse, s)
      | _ => none

/-- The fields of a table between braces, with those that came before. -/
def fields? : Nat → Nat → Entries → List Char → Option (Value × List Char)
  | 0, _, _, _ => none
  | fuel + 1, depth, done, s => do
    match ← skipLines? (s.length + 1) s with
    | '\x7d' :: s => return (.table .closed done, s)
    | s =>
      let (path, k, s) ← key? (s.length + 1) s
      let '=' :: s := s | none
      let (v, s) ← value? fuel depth (skipBlank s)
      let done ← done.assign .header path k v
      match ← skipLines? (s.length + 1) s with
      | ',' :: s => fields? fuel depth done s
      | '\x7d' :: s => return (.table .closed done, s)
      | _ => none

end

/-- A statement at the front, and what follows its line. -/
def statement? (s : List Char) : Option (Statement × List Char) :=
  match s with
  | '[' :: '[' :: s => do
    let (path, k, s) ← key? (s.length + 1) s
    let ']' :: ']' :: s := s | none
    return (.arrayHeader path k, ← endLine? s)
  | '[' :: s => do
    let (path, k, s) ← key? (s.length + 1) s
    let ']' :: s := s | none
    return (.header path k, ← endLine? s)
  | s => do
    let (path, k, s) ← key? (s.length + 1) s
    let '=' :: s := s | none
    let (v, s) ← value? (s.length + 1) maxDepth (skipBlank s)
    return (.assign path k v, ← endLine? s)

def statements? : Nat → List Char → Option (List Statement)
  | 0, _ => none
  | fuel + 1, s => do
    match ← skipLines? (s.length + 1) s with
    | [] => return []
    | s =>
      let (first, s) ← statement? s
      return first :: (← statements? fuel s)

end Parser

/-- A document being built, and the header of the table that assignments go to. -/
structure Draft where
  entries : Entries
  current : List Key

namespace Draft

def add (d : Draft) : Statement → Option Draft
  | .header path k => do return ⟨← d.entries.openTable path k, path ++ [k]⟩
  | .arrayHeader path k => do return ⟨← d.entries.pushTable path k, path ++ [k]⟩
  | .assign path k v => do
    let entries ← d.entries.modifyAt .implied (fun _ es => es.assign .header path k v) .header
      d.current
    return ⟨entries, d.current⟩

end Draft

/-- The table of a document. A byte order mark at its beginning is no part of it. -/
def parse? (s : List Char) : Option Entries := do
  let s := if s.head? = some (Char.ofNat 0xFEFF) then s.drop 1 else s
  let statements ← Parser.statements? (s.length + 1) s
  let draft ← statements.foldlM Draft.add ⟨[], []⟩
  return draft.entries

end LineEditor.Toml
