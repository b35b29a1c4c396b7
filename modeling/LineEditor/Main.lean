import LineEditor.CommandLoop

/-!
# The program

The command loop over the file system and the streams of the machine. Nothing is decided here: a
line goes to the engine, requests of commands go to the file system, and texts go to standard
output.
-/

namespace LineEditor

namespace CommandLoop

/-- The words of the system for an error number; some calls report the number with a minus sign. -/
def systemWords (code : UInt32) (otherwise : String) : String :=
  let number := code.toInt32.toInt.natAbs
  let known : Option String :=
    match number with
    | 1 => some "Operation not permitted"
    | 2 => some "No such file or directory"
    | 5 => some "Input/output error"
    | 6 => some "No such device or address"
    | 13 => some "Permission denied"
    | 17 => some "File exists"
    | 20 => some "Not a directory"
    | 21 => some "Is a directory"
    | 22 => some "Invalid argument"
    | 28 => some "No space left on device"
    | 30 => some "Read-only file system"
    | 36 => some "File name too long"
    | 40 => some "Too many levels of symbolic links"
    | _ => none
  match known with
  | some words => s!"{words} (os error {number})"
  | none => otherwise

def errorWords : IO.Error → String
  | .alreadyExists _ code text | .invalidArgument _ code text | .permissionDenied _ code text
  | .resourceExhausted _ code text | .inappropriateType _ code text | .noSuchThing _ code text
  | .interrupted _ code text | .noFileOrDirectory _ code text | .otherError code text
  | .resourceBusy code text | .resourceVanished code text | .unsupportedOperation code text
  | .hardwareFault code text | .unsatisfiedConstraints code text | .illegalOperation code text
  | .protocolError code text | .timeExpired code text => systemWords code text
  | .unexpectedEof => "failed to fill whole buffer"
  | .userError text => text

/-- The answer of the system to a request about a path. -/
def request (path : List Char) (act : String → IO α) : IO (Except String α) :=
  if path.contains '\x00' then return .error FileFault.nulByte.message
  else
    try return .ok (← act (String.ofList path))
    catch e => return .error (errorWords e)

def readFile (path : String) : IO Bytes := do return (← IO.FS.readBinFile path).toList

def entrySuffix : IO.FS.FileType → Option Suffix
  | .dir => FileTree.suffixOf .directory
  | .symlink => FileTree.suffixOf (.link [])
  | _ => none

def loadPath (path : String) : IO Loaded := do
  let here ← IO.currentDir
  let place := here / path
  if (← place.metadata).type == .dir then
    let entries ← (← place.readDir).toList.mapM fun entry => do
      let type := (← (place / entry.fileName).symlinkMetadata).type
      return (Utf8.ofString entry.fileName, entrySuffix type)
    return .directory (entries.mergeSort fun a b => Bytes.le a.1 b.1)
  else return .file (← readFile path)

def writeFile (path : String) (bytes : Bytes) (append : Bool) : IO Nat := do
  let handle ← IO.FS.Handle.mk path (if append then .append else .write)
  handle.write (ByteArray.mk bytes.toArray)
  handle.flush
  return bytes.length

/-- Carries out what a command asks of the file system. -/
def complete : Progress → IO (EditM Report)
  | .done report => return pure report
  | .load path resume => return resume (← request path loadPath)
  | .read path resume => return resume (← request path readFile)
  | .write path bytes append resume =>
    return resume (← request path fun path => writeFile path bytes append)

/-- The value of something that no input can break. -/
def orBreach (x : Except Breach α) : IO α :=
  match x with
  | .ok a => return a
  | .error b => throw (IO.userError b.message)

def takeLine (e : Engine) (line : List Char) : IO (Except EditError Report × Engine) := do
  match ← orBreach (e.run (EditM.dispatch line)) with
  | (.error err, e) => return (.error err, e)
  | (.ok progress, e) => orBreach (e.run (← complete progress))

def say (text : String) : IO Unit := do
  let out ← IO.getStdout
  out.putStr text
  out.flush

/-- The bytes up to the next newline, it included, or up to the end; those before are in `line`, last
one first. -/
partial def readLine (input : IO.FS.Stream) (line : Bytes) : IO Bytes := do
  let next ← input.read 1
  match next.toList with
  | b :: _ => if b = Bytes.newline then return (b :: line).reverse else readLine input (b :: line)
  | [] => return line.reverse

/-- Reads lines up to the end of the input, a request to stop, or a line that is not UTF-8. -/
partial def serve (settings : Settings) (e : Engine) : IO UInt32 := do
  say (prompt settings e)
  let line ← readLine (← IO.getStdin) []
  if line.isEmpty then return 0
  match Utf8.toString? line with
  | none => return 1
  | some text =>
    let (answer, e) ← takeLine e text.toList
    let (text, quit) := printed answer
    say text
    if quit then return 0 else serve settings e

def findConfig : IO String := do
  let here ← IO.currentDir
  if ← (here / Config.localPath).pathExists then return Config.localPath
  match ← IO.getEnv "XDG_CONFIG_HOME" with
  | some directory => return directory ++ "/" ++ Config.userPath
  | none =>
    match ← IO.getEnv "HOME" with
    | some home => return home ++ "/.config/" ++ Config.userPath
    | none => return Config.localPath

/-- Begins the log anew; a log that cannot be removed is added to. -/
def startLog : IO Unit := do
  let place := (← IO.currentDir) / FileTree.logName
  if ← place.pathExists then
    try IO.FS.removeFile place
    catch _ => pure ()
  let _ ← IO.FS.Handle.mk place .append

def start (a : Arguments) : IO UInt32 := do
  let path ←
    match a.config with
    | some path => pure path
    | none => findConfig
  let bytes ← request path.toList readFile
  let settings := (Config.ofBytes bytes.toOption).settings
  let e := Engine.new settings.limits
  match a.path with
  | none => serve settings e
  | some path =>
    let (answer, e) ← takeLine e (openingLine path)
    let (text, quit) := printed answer
    say text
    if quit then return 0 else serve settings e

end CommandLoop

end LineEditor

/-- Edits the file or directory named by the arguments. -/
def main (args : List String) : IO UInt32 := do
  try
    LineEditor.CommandLoop.startLog
    match LineEditor.CommandLoop.Arguments.parse false .none args with
    | some a => LineEditor.CommandLoop.start a
    | none => return 2
  catch _ => return 1
