/-!
# TOML documents

The values that a document can hold. A table knows how it came to be, since that decides what may
still be added to it.
-/

namespace LineEditor.Toml

/-- A key without quotes and escapes. -/
abbrev Key := List Char

/-- How a table came to be. -/
inductive TableKind where
  /-- Written between braces; nothing can be added. -/
  | closed
  /-- Named by a header. -/
  | header
  /-- On the way to a table named by a header. -/
  | implied
  /-- On the way to a dotted key. -/
  | dotted
  deriving Repr, DecidableEq

inductive Value where
  | string (s : List Char)
  | integer (n : Int)
  | float
  | boolean (b : Bool)
  | datetime
  | array (items : List Value)
  | table (kind : TableKind) (entries : List (Key × Value))
  /-- The tables of an array header, last one first. -/
  | tables (items : List (List (Key × Value)))
  deriving Repr

/-- The entries of a table. -/
abbrev Entries := List (Key × Value)

namespace Entries

def get? (es : Entries) (k : Key) : Option Value := (es.find? fun e => e.1 == k).map Prod.snd

/-- Replaces the value of a key, or adds it at the end. -/
def put : Entries → Key → Value → Entries
  | [], k, v => [(k, v)]
  | e :: es, k, v => if e.1 == k then (k, v) :: es else e :: put es k v

/-- The table a key names as the next step of a path, with what makes a value of it again. New
tables are of kind `new`. Where the path is that of a dotted key, no table of a header may be on it.
-/
def step (new : TableKind) (es : Entries) (k : Key) :
    Option (TableKind × Entries × (Entries → Value)) :=
  match es.get? k with
  | none => some (new, [], .table new)
  | some (.table .closed _) => none
  | some (.table kind inner) =>
    if new = .dotted && kind = .header then none else some (kind, inner, .table kind)
  | some (.tables (last :: others)) => some (.header, last, fun es => .tables (es :: others))
  | some _ => none

def modifyAt (new : TableKind) (f : TableKind → Entries → Option Entries) :
    TableKind → List Key → Entries → Option Entries
  | kind, [], es => f kind es
  | _, k :: path, es => do
    let (kind, inner, rebuild) ← es.step new k
    let inner ← modifyAt new f kind path inner
    return es.put k (rebuild inner)

/-- Adds a key of a table. A dotted key ends in a table that dotted keys have made. -/
def assign (kind : TableKind) (path : List Key) (k : Key) (v : Value) (es : Entries) :
    Option Entries :=
  modifyAt .dotted
    (fun kind es =>
      if (kind == .dotted) == path.isEmpty || (es.get? k).isSome then none else some (es.put k v))
    kind path es

/-- Opens the table of a header: a new one, or one that was only implied. -/
def openTable (path : List Key) (k : Key) (es : Entries) : Option Entries :=
  modifyAt .implied
    (fun _ es =>
      match es.get? k with
      | none => some (es.put k (.table .header []))
      | some (.table .implied inner) => some (es.put k (.table .header inner))
      | some _ => none)
    .header path es

def pushTable (path : List Key) (k : Key) (es : Entries) : Option Entries :=
  modifyAt .implied
    (fun _ es =>
      match es.get? k with
      | none => some (es.put k (.tables [[]]))
      | some (.tables items) => some (es.put k (.tables ([] :: items)))
      | some _ => none)
    .header path es

end Entries

end LineEditor.Toml
