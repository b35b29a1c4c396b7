import LineEditor.Command.Number
import LineEditor.Engine.Basic
import LineEditor.Text.Utf8
import LineEditor.Toml.Parser

/-!
# Configuration

A configuration says how much the editor holds and what it prompts with. All of it is optional, and
what is not known is ignored. A file that cannot be read this way counts as none.
-/

namespace LineEditor

/-- The values as given. -/
structure Settings where
  sessions : Nat
  lines : Nat
  lineLength : Nat
  prompt : List Char
  deriving Repr, DecidableEq

def Settings.standard : Settings := ⟨100, 1000000, 50000, []⟩

namespace Settings

/-- The limits of the editor: at least one session and at most a thousand, at least one line, and
lines of at least 256 bytes. -/
def limits (s : Settings) : Limits where
  sessions := max 1 (min s.sessions 1000)
  lines := max s.lines 1
  lineLength := max s.lineLength 256

open Toml (Value Entries Key)

def count? : Value → Option Nat
  | .integer n => if 0 ≤ n && n ≤ Number.maxCount then some n.toNat else none
  | _ => none

def text? : Value → Option (List Char)
  | .string s => some s
  | _ => none

/-- The fields of a section in order, each with its value if it has one. A section may also be an
array, which gives the values in order; a date has none of them. -/
def fields? (names : List Key) : Value → Option (List (Option Value))
  | .table _ entries => some (names.map (Toml.Entries.get? entries))
  | .array items => some ((List.range names.length).map fun i => items[i]?)
  | .tables items =>
    some ((List.range names.length).map fun i => items.reverse[i]?.map (Value.table .header))
  | .datetime => some (names.map fun _ => none)
  | _ => none

/-- The value of a field, or the usual one where it is not given. -/
def field (read : Value → Option α) (usual : α) (given : Option (Option Value)) : Option α :=
  match given with
  | some (some v) => read v
  | _ => some usual

/-- The fields of a section of a document; a section that is not there gives none. -/
def sectionFields? (document : Entries) (name : Key) (names : List Key) :
    Option (List (Option Value)) :=
  match Toml.Entries.get? document name with
  | some v => fields? names v
  | none => some []

def ofDocument? (document : Entries) : Option Settings := do
  let sessions ← sectionFields? document "sessions".toList ["max".toList]
  let limits ← sectionFields? document "limits".toList
    ["max_lines".toList, "max_line_length".toList]
  let display ← sectionFields? document "display".toList ["prompt".toList]
  return {
    sessions := ← field count? standard.sessions sessions[0]?
    lines := ← field count? standard.lines limits[0]?
    lineLength := ← field count? standard.lineLength limits[1]?
    prompt := ← field text? standard.prompt display[0]? }

def parse? (text : List Char) : Option Settings := (Toml.parse? text).bind ofDocument?

end Settings

/-- A configuration, and whether it comes from a file. -/
structure Config where
  fromFile : Bool
  settings : Settings
  deriving Repr, DecidableEq

namespace Config

def standard : Config := ⟨false, .standard⟩

/-- The configuration in the bytes of a file, if there is a file and it can be read. -/
def ofBytes (bytes : Option Bytes) : Config :=
  match bytes.bind Utf8.toString? with
  | some text =>
    match Settings.parse? text.toList with
    | some settings => ⟨true, settings⟩
    | none => standard
  | none => standard

/-- The file in the working directory that is read first. -/
def localPath : String := "oxed.toml"

/-- The file below the directory of a user's configurations. -/
def userPath : String := "oxed/oxed.toml"

end Config

end LineEditor
