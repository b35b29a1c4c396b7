import LineEditor.Command.Progress
import LineEditor.Text.Utf8

/-!
# File trees

A file system as a value: what stands at each path below a working directory. Paths are followed
name by name, through links, and the faults are those of a POSIX system, as are the words for them.
Outside the working directory there is nothing but the directories above it.
-/

namespace LineEditor

/-- What can stand at a path. -/
inductive FileNode where
  | file (bytes : Bytes)
  | directory
  | link (target : Bytes)
  | fifo
  | socket
  deriving Repr, DecidableEq

/-- Why a path cannot be used. -/
inductive FileFault where
  | notFound
  | noReader
  | notDirectory
  | isDirectory
  | nameTooLong
  | linkLoop
  | nulByte
  deriving Repr, DecidableEq

def FileFault.message : FileFault → String
  | notFound => "No such file or directory (os error 2)"
  | noReader => "No such device or address (os error 6)"
  | notDirectory => "Not a directory (os error 20)"
  | isDirectory => "Is a directory (os error 21)"
  | nameTooLong => "File name too long (os error 36)"
  | linkLoop => "Too many levels of symbolic links (os error 40)"
  | nulByte => "file name contained an unexpected NUL byte"

/-- The names from the working directory to a node. -/
abbrev Names := List Bytes

/-- The nodes below the working directory, which itself is not among them. -/
structure FileTree where
  nodes : List (Names × FileNode)
  deriving Repr, DecidableEq

namespace FileTree

def empty : FileTree := ⟨[]⟩

def slash : UInt8 := 47

def here : Bytes := [46]

def above : Bytes := [46, 46]

def maxName : Nat := 255

def maxPath : Nat := 4095

/-- How many links may be followed on the way to a node. -/
def maxLinks : Nat := 40

/-- Whether names lead to the working directory or to one above it. -/
def isAncestor (names : Names) : Bool := names.all (· == above)

def parent (dir : Names) : Names := if isAncestor dir then dir ++ [above] else dir.dropLast

def node? (t : FileTree) (names : Names) : Option FileNode :=
  if isAncestor names then some .directory
  else (t.nodes.find? fun n => n.1 == names).map Prod.snd

def put (t : FileTree) (names : Names) (n : FileNode) : FileTree :=
  ⟨t.nodes.filter (fun m => m.1 != names) ++ [(names, n)]⟩

def remove (t : FileTree) (names : Names) : FileTree :=
  ⟨t.nodes.filter fun m => m.1 != names⟩

def namesOf (path : Bytes) : Names := (Bytes.splitOn slash path).filter fun name => !name.isEmpty

/-- Whether a path asks for a directory by a slash at its end. -/
def endsInSlash (path : Bytes) : Bool := path.getLast? == some slash

/-- The names to follow in a path; a slash at the end asks for what is in a directory. -/
def steps (path : Bytes) : Names := namesOf path ++ if endsInSlash path then [here] else []

/-- Where a path leads. -/
inductive Found where
  | node (names : Names) (n : FileNode)
  /-- The directory is there but has no such name. -/
  | vacant (names : Names)
  deriving Repr, DecidableEq

/-- Follows names from the directory `dir` on; `links` may still be followed. -/
def follow (t : FileTree) : Nat → Nat → Names → Names → Except FileFault Found
  | 0, _, _, _ => .error .linkLoop
  | _ + 1, _, dir, [] => .ok (.node dir .directory)
  | fuel + 1, links, dir, name :: rest =>
    if name == here then follow t fuel links dir rest
    else if name == above then follow t fuel links (parent dir) rest
    else if maxName < name.length then .error .nameTooLong
    else
      let names := dir ++ [name]
      match t.node? names with
      | none => if rest.isEmpty then .ok (.vacant names) else .error .notFound
      | some .directory => follow t fuel links names rest
      | some (.link target) =>
        match links with
        | 0 => .error .linkLoop
        | links + 1 =>
          if target.head? == some slash then .error .notFound
          else follow t fuel links dir (steps target ++ rest)
      | some n => if rest.isEmpty then .ok (.node names n) else .error .notDirectory

/-- Enough steps for any path: the names in it, and those of every link as often as one may be
followed. -/
def fuel (t : FileTree) (path : Bytes) : Nat :=
  let longest := t.nodes.foldl (fun n m =>
    match m.2 with
    | .link target => max n (steps target).length
    | _ => n) 0
  (steps path).length + (maxLinks + 1) * (longest + 1) + 1

def find (t : FileTree) (path : Bytes) : Except FileFault Found :=
  if path.contains 0 then .error .nulByte
  else if path.isEmpty then .error .notFound
  else if maxPath < path.length then .error .nameTooLong
  else if path.head? == some slash then .error .notFound
  else t.follow (t.fuel path) maxLinks [] (steps path)

def stat (t : FileTree) (path : Bytes) : Except FileFault (Names × FileNode) := do
  match ← t.find path with
  | .node names n => return (names, n)
  | .vacant _ => throw .notFound

/-- Puts a node at some names, and directories above it where there is nothing. -/
def place (t : FileTree) (names : Names) (n : FileNode) : FileTree :=
  let parents := (List.range names.length).map fun i => names.take i
  let missing := parents.filter fun p => (t.node? p).isNone
  FileTree.put (missing.foldl (fun t p => t.put p .directory) t) names n

def create (t : FileTree) (path : Bytes) (n : FileNode) : FileTree :=
  match t.find path with
  | .ok (.vacant names) => t.put names n
  | .ok (.node names _) => t.put names n
  | .error _ => t.place (namesOf path) n

/-- The letter shown after a directory entry: a slash for directories, an at sign for links, a bar
for pipes and an equals sign for sockets. -/
def suffixOf : FileNode → Option Suffix
  | .file _ => none
  | .directory => Suffix.ofBytes? [slash]
  | .link _ => Suffix.ofBytes? [64]
  | .fifo => Suffix.ofBytes? [124]
  | .socket => Suffix.ofBytes? [61]

def entries (t : FileTree) (dir : Names) : List (Bytes × Option Suffix) :=
  let inside := t.nodes.filterMap fun (names, n) =>
    if names.dropLast == dir then names.getLast?.map fun name => (name, suffixOf n) else none
  inside.mergeSort fun a b => Bytes.le a.1 b.1

def list (t : FileTree) (path : Bytes) : Except FileFault (List (Bytes × Option Suffix)) := do
  match ← t.stat path with
  | (names, .directory) => return t.entries names
  | _ => throw .notDirectory

def read (t : FileTree) (path : Bytes) : Except FileFault Bytes := do
  match ← t.stat path with
  | (_, .file bytes) => return bytes
  | (_, .directory) => throw .isDirectory
  | (_, .socket) => throw .noReader
  | _ => return []

def load (t : FileTree) (path : Bytes) : Except FileFault Loaded := do
  match ← t.stat path with
  | (names, .directory) => return .directory (t.entries names)
  | _ => return .file (← t.read path)

/-- Where a file is to be written: a path that asks for a directory cannot be a file. -/
def target (t : FileTree) (path : Bytes) : Except FileFault Found := do
  if endsInSlash path && !(namesOf path).isEmpty then
    let parent := List.intercalate [slash] (here :: (namesOf path).dropLast ++ [here])
    let _ ← t.stat parent
    throw .isDirectory
  t.find path

/-- Writes bytes to the file at a path, or adds them to it. A file that is not there is created. -/
def write (t : FileTree) (path : Bytes) (bytes : Bytes) (append : Bool) :
    Except FileFault FileTree := do
  match ← t.target path with
  | .vacant names => return t.put names (.file bytes)
  | .node names (.file old) => return t.put names (.file (if append then old ++ bytes else bytes))
  | .node _ .directory => throw .isDirectory
  | .node _ .socket => throw .noReader
  | .node _ _ => return t

def logName : String := "oxed.log"

def logPath : Bytes := Utf8.ofString logName

/-- An old log goes, and a new one is empty; what is no file stays. -/
def withLog (t : FileTree) : FileTree :=
  match t.stat logPath with
  | .ok (_, .directory) => t
  | .ok _ => (t.remove [logPath]).put [logPath] (.file [])
  | .error _ => (t.write logPath [] true).toOption.getD t

def answer (r : Except FileFault α) : Except String α := r.mapError FileFault.message

def storage : Storage FileTree where
  load t path := answer (t.load (Utf8.ofChars path))
  read t path := answer (t.read (Utf8.ofChars path))
  write t path bytes append :=
    match t.write (Utf8.ofChars path) bytes append with
    | .ok t => (.ok bytes.length, t)
    | .error fault => (.error fault.message, t)
  beginLog := withLog

end FileTree

end LineEditor
