import LineEditor.Unicode.Age
import LineEditor.Unicode.Binary
import LineEditor.Unicode.CaseFold
import LineEditor.Unicode.Category
import LineEditor.Unicode.Script

/-!
# Properties by name

A property is named alone (`Greek`, `Lu`, `White_Space`) or as a name and a value (`sc=Greek`).
Names are compared without regard to case, blanks, hyphens, underscores and a leading `is`.
-/

namespace LineEditor.Unicode

/-- Why a property cannot be found. -/
inductive PropertyFault where
  | noProperty
  | noValue
  deriving Repr, DecidableEq

def significant (c : Char) : Bool :=
  c.toNat < 128 && c != ' ' && c != '_' && c != '-'

/-- The form under which names are compared. The one-letter name left by `isc` keeps its beginning,
as it would otherwise name the category `C`. -/
def looseName (name : List Char) : String :=
  let loose (cs : List Char) := (cs.filter significant).map Char.toLower
  match name with
  | i :: s :: rest =>
    if i.toLower == 'i' && s.toLower == 's' then
      if loose rest == ['c'] then "isc" else String.ofList (loose rest)
    else String.ofList (loose name)
  | _ => String.ofList (loose name)

/-- A property named alone: a binary property, a general category or a script. -/
def property? (name : List Char) : Option CodeSet :=
  let name := looseName name
  if name == "any" then some ⟨[(0, maxCode)]⟩
  else if name == "ascii" then some ⟨[(0, 127)]⟩
  else if name == "assigned" then (category? "cn").map (·.complement maxCode)
  else
    match binary? name with
    | some s => some s
    | none =>
      match category? name with
      | some s => some s
      | none => script? name

def propertyValue (name value : List Char) : Except PropertyFault CodeSet :=
  let name := looseName name
  let value := looseName value
  let found (s : Option CodeSet) : Except PropertyFault CodeSet :=
    match s with
    | some s => .ok s
    | none => .error .noValue
  if name == "gc" || name == "generalcategory" then
    if value == "any" then .ok ⟨[(0, maxCode)]⟩
    else if value == "ascii" then .ok ⟨[(0, 127)]⟩
    else if value == "assigned" then found ((category? "cn").map (·.complement maxCode))
    else found (category? value)
  else if name == "sc" || name == "script" then found (script? value)
  else if name == "scx" || name == "scriptextensions" then found (scriptExtension? value)
  else if name == "age" then found (age? value)
  else if (binary? name).isSome then .error .noValue
  else .error .noProperty

end LineEditor.Unicode
