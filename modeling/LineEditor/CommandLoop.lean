import LineEditor.Command.Dispatch
import LineEditor.Config
import LineEditor.Storage.FileTree

/-!
# The command loop

The editor begins its log anew, loads what it was started with, and reads its input line by line. It
prints what each line has to tell, or a question mark and why the line was refused, and it stops at
the end of the input or when a command says so. Input that is not UTF-8 ends it with a failure.
-/

namespace LineEditor

namespace CommandLoop

/-- What the editor is started with. -/
structure Arguments where
  /-- The file or directory to edit. -/
  path : Option String
  /-- The configuration to use instead of the one that is found. -/
  config : Option String
  deriving Repr, DecidableEq

namespace Arguments

def none : Arguments := ⟨.none, .none⟩

def configOption : String := "--config"

/-- Reads arguments; behind two dashes all of them are paths. Arguments that make no sense give
nothing. -/
def parse (plain : Bool) (a : Arguments) : List String → Option Arguments
  | [] => some a
  | s :: rest =>
    let asPath : Option Arguments :=
      match a.path with
      | .none => some { a with path := some s }
      | some _ => .none
    let asConfig (value : String) : Option Arguments :=
      match a.config with
      | .none => some { a with config := some value }
      | some _ => .none
    if !plain && s == "--" then parse true a rest
    else if !plain && s == configOption then
      match rest with
      | value :: rest => (asConfig value).bind fun a => parse plain a rest
      | [] => .none
    else if !plain && (configOption ++ "=").toList.isPrefixOf s.toList then
      (asConfig (String.ofList (s.toList.drop (configOption.length + 1)))).bind fun a =>
        parse plain a rest
    else if !plain && s.toList.head? == some '-' && s.length > 1 then .none
    else asPath.bind fun a => parse plain a rest

end Arguments

/-- The text printed for a line, and whether the editor stops. -/
def printed (answer : Except EditError Report) : String × Bool :=
  match answer with
  | .ok r => (String.join (r.output.map fun line => line ++ "\n"), r.quit)
  | .error e => ("? " ++ e.message ++ "\n", false)

/-- What is printed before a line is read: nothing while text is being typed. -/
def prompt (settings : Settings) (e : Engine) : String :=
  if e.entry.isNone then String.ofList settings.prompt else ""

def openingLine (path : String) : List Char := 'e' :: ' ' :: path.toList

/-- The next line of the input with the newline that ends it, and what follows. -/
def nextLine (input : Bytes) : Bytes × Bytes :=
  let line := input.takeWhile (· ≠ Bytes.newline)
  (input.take (line.length + 1), input.drop (line.length + 1))

/-- A run of the editor so far. -/
structure State (σ : Type) where
  engine : Engine
  disk : σ
  /-- The texts printed, last one first. -/
  output : List String

/-- How a run ended. -/
structure Outcome (σ : Type) where
  output : String
  status : Nat
  disk : σ

namespace State

def print (s : State σ) (text : String) : State σ := { s with output := text :: s.output }

def finish (s : State σ) (status : Nat) : Outcome σ :=
  ⟨String.join s.output.reverse, status, s.disk⟩

def take [CountLimit] (storage : Storage σ) (line : List Char) (s : State σ) :
    Except Breach (State σ × Bool) := do
  let (answer, engine, disk) ← s.engine.dispatchOn storage line s.disk
  let (text, quit) := printed answer
  return (print ⟨engine, disk, s.output⟩ text, quit)

end State

/-- Reads lines up to the end. -/
def loop [CountLimit] (storage : Storage σ) (settings : Settings) :
    Nat → Bytes → State σ → Except Breach (Outcome σ)
  | 0, _, s => return s.finish 0
  | fuel + 1, input, s => do
    let s := s.print (prompt settings s.engine)
    if input.isEmpty then return s.finish 0
    else
      let (line, rest) := nextLine input
      match Utf8.toString? line with
      | none => return s.finish 1
      | some text =>
        let (s, quit) ← s.take storage text.toList
        if quit then return s.finish 0 else loop storage settings fuel rest s

def run [CountLimit] (storage : Storage σ) (config : Config) (path : Option String) (input : Bytes)
    (disk : σ) : Except Breach (Outcome σ) := do
  let start : State σ := ⟨.new config.settings.limits, storage.beginLog disk, []⟩
  let (s, quit) ←
    match path with
    | some path => start.take storage (openingLine path)
    | none => pure (start, false)
  if quit then return s.finish 0
  else loop storage config.settings (input.length + 1) input s

end CommandLoop

namespace FileTree

/-- The configuration at a path, or the one found: in the working directory, or else below the
directory of the user's configurations. -/
def config (t : FileTree) (userDirectory : String) (path : Option String) : Config :=
  let found :=
    match path with
    | some path => path
    | none =>
      if (t.stat (Utf8.ofString Config.localPath)).toOption.isSome then Config.localPath
      else userDirectory ++ "/" ++ Config.userPath
  .ofBytes (t.read (Utf8.ofString found)).toOption

end FileTree

end LineEditor
