import LineEditor.Command.Resolve

/-!
# Commands

A command line has a range, a letter and a tail. The letter says what to do, the tail is for the
command to read. Which commands may be used depends on the window and on whether the line is run by
a global command.
-/

namespace LineEditor

/-- How a line is printed. -/
inductive PrintStyle where
  | plain
  | numbered
  | listed
  deriving Repr, DecidableEq

namespace PrintStyle

def letter : PrintStyle → Char
  | plain => 'p'
  | numbered => 'n'
  | listed => 'l'

def ofLetter? (c : Char) : Option PrintStyle :=
  if c = 'p' then some plain
  else if c = 'n' then some numbered
  else if c = 'l' then some listed
  else none

end PrintStyle

/-- The commands that a global command may run on each line. -/
inductive LineCommand where
  | print (style : PrintStyle)
  | lineNumber
  | delete
  | join (spaced : Bool)
  | move
  | copy
  | label
  | substitute
  deriving Repr, DecidableEq

inductive Command where
  | line (c : LineCommand)
  | append
  | insert
  | change
  | global (inverted : Bool)
  | undo
  | edit
  | quit
  | back
  | moveSession
  | fileName
  | read
  | write
  deriving Repr, DecidableEq

def LineCommand.letter : LineCommand → Char
  | print style => style.letter
  | lineNumber => '='
  | delete => 'd'
  | join spaced => if spaced then 'J' else 'j'
  | move => 'm'
  | copy => 't'
  | label => 'k'
  | substitute => 's'

namespace Command

def letter : Command → Char
  | line c => c.letter
  | append => 'a'
  | insert => 'i'
  | change => 'c'
  | global inverted => if inverted then 'v' else 'g'
  | undo => 'u'
  | edit => 'e'
  | quit => 'q'
  | back => '^'
  | moveSession => 'M'
  | fileName => 'f'
  | read => 'r'
  | write => 'w'

def all : List Command :=
  [.line (.print .plain), .line (.print .numbered), .line (.print .listed), .line .lineNumber,
    .line .delete, .line (.join false), .line (.join true), .line .move, .line .copy, .line .label,
    .line .substitute, .append, .insert, .change, .global false, .global true, .undo, .edit, .quit,
    .back, .moveSession, .fileName, .read, .write]

def ofLetter? (c : Char) : Option Command := all.find? fun cmd => cmd.letter == c

/-- Whether a command makes sense before the first line. -/
def allowsZero : Command → Bool
  | line .lineNumber | append | insert | undo | edit | quit | back | moveSession | fileName | read
  | write => true
  | _ => false

end Command

/-- Whether a command may be used in a window of a mode: pages and directories are not edited, but
in a page words can be substituted. -/
def Mode.allows : Mode → Command → Bool
  | .normal, _ => true
  | mode, .line .substitute => mode = .browse
  | _, .line .delete | _, .line (.join _) | _, .line .move | _, .line .copy => false
  | _, .append | _, .insert | _, .change | _, .read => false
  | _, _ => true

/-- A line cut into its parts. -/
structure CommandLine where
  range : RangeExpr
  /-- No letter: the line has only a range, or nothing. -/
  letter : Option Char
  tail : List Char
  deriving Repr, DecidableEq

namespace CommandLine

def parse (line : List Char) : Except EditError CommandLine := do
  let (range, rest) ← RangeExpr.parse (Unicode.trimStart line)
  match Unicode.trimStart rest with
  | [] => return ⟨range, none, []⟩
  | c :: tail => return ⟨range, some c, tail⟩

/-- `parse`, with the cuts made. -/
def read (line : List Char) : Reading CommandLine := do
  let (range, rest) ← RangeExpr.read (Unicode.trimStart line)
  match Unicode.trimStart rest with
  | [] => return ⟨range, none, []⟩
  | c :: tail => return ⟨range, some c, tail⟩

end CommandLine

def printSuffix (letter : Char) (tail : List Char) : Except EditError (Option PrintStyle) :=
  match Unicode.trim tail with
  | [] => return none
  | [c] =>
    match PrintStyle.ofLetter? c with
    | some style => return some style
    | none => throw (.trailingText letter)
  | _ => throw (.trailingText letter)

def noTail (letter : Char) (tail : List Char) : Except EditError Unit :=
  if (Unicode.trim tail).isEmpty then pure () else throw (.trailingText letter)

/-- The command of a letter; no letter asks for a line to be shown. -/
def identify (letter : Option Char) : Except EditError (Option Command) :=
  match letter with
  | none => return none
  | some c =>
    match Command.ofLetter? c with
    | some cmd => return some cmd
    | none => throw (.unknownCommand c)

def checkMode (mode : Mode) (cmd : Option Command) : Except EditError Unit :=
  match cmd with
  | none => pure ()
  | some cmd => if mode.allows cmd then pure () else throw (.notInMode cmd.letter mode)

/-- Refuses commands that a global command must not run. -/
def checkGlobal (cmd : Option Command) : Except EditError (Option LineCommand) :=
  match cmd with
  | none => return none
  | some (.line c) => return some c
  | some cmd => throw (.notInGlobal cmd.letter)

def checkZero (cmd : Option Command) (start : Nat) : Except EditError Unit :=
  if 0 < start || cmd.any Command.allowsZero then pure () else throw .zeroLine

/-- The range of a command for which none was typed, and for a join the line behind a single one. -/
def defaultRange (dot dol : Nat) (inGlobal : Bool) (cmd : Option Command) : LineRange :=
  match cmd with
  | none => if inGlobal then ⟨dot, dot, 0⟩ else ⟨dot + 1, dot + 1, 0⟩
  | some (.line (.join _)) => if 0 < dot then ⟨dot, dot + 1, 0⟩ else ⟨dot, dot, 0⟩
  | some (.global _) | some .write => ⟨min dol 1, dol, 0⟩
  | some .read | some (.line .lineNumber) => ⟨dol, dol, 0⟩
  | some _ => ⟨dot, dot, 0⟩

def effectiveRange (dot dol : Nat) (inGlobal : Bool) (cmd : Option Command)
    (given : Option LineRange) : Except EditError LineRange :=
  let inside (r : LineRange) : Except EditError LineRange :=
    if dol < r.stop then throw (.lineOutOfRange r.stop) else return r
  match given, cmd with
  | some r, some (.line (.join _)) =>
    if r.given = 1 && 0 < r.start then inside ⟨r.start, r.start + 1, 1⟩ else return r
  | some r, _ => return r
  | none, _ => inside (defaultRange dot dol inGlobal cmd)

/-- The lines that a command works on, all checks made. -/
def View.locate (v : View) (inGlobal : Bool) (cmd : Option Command) (expr : RangeExpr) :
    Query LineRange := do
  let given ← v.range expr
  let range ← liftExcept (effectiveRange v.window.dot v.window.dol inGlobal cmd given)
  liftExcept (checkZero cmd range.start)
  return range

end LineEditor
