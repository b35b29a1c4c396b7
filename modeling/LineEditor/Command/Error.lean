import LineEditor.Buffer.Window
import LineEditor.Regex.Fault
import LineEditor.Text.Quoted

/-!
# Errors

Why a command is refused, and the line that tells the user. Except for a global command that stopped
half way, a refused command has changed no text.
-/

namespace LineEditor

/-- What is wrong with a pattern. -/
inductive PatternFault where
  | syntaxFault (fault : Regex.Fault)
  /-- A substitution that ends before its replacement. -/
  | missingReplacement
  deriving Repr, DecidableEq

def PatternFault.message : PatternFault → String
  | syntaxFault fault => fault.message
  | missingReplacement => "missing replacement"

inductive EditError where
  | badRange
  | lineOutOfRange (line : Nat)
  | negativeLine
  | labelNotSet (name : Char)
  | badLabel (name : Char)
  | patternNotFound
  | missingAddress
  | zeroLine
  | notInMode (letter : Char) (mode : Mode)
  | notInGlobal (letter : Char)
  | destinationInRange
  | trailingText (letter : Char)
  | malformed (fault : PatternFault)
  | emptyMatchRepeat
  | noRememberedPattern
  | noRememberedReplacement
  | badDelimiter (c : Char)
  | markupAltered
  | badFlags (text : List Char)
  | resultTooLong (limit : Nat)
  | tooManyLines (limit : Nat)
  | nothingToUndo
  | sessionActive (slot : Nat)
  | sessionInactive (slot : Nat)
  | badSession (slot : Nat)
  | noPreviousWindow
  | unsavedChanges
  | noFileName
  | noSessionsFree
  | notEnteringText
  | interrupted
  | unknownCommand (letter : Char)
  | noMatch
  | noLinesMarked
  /-- A global command that stopped, and the line where its last change was. -/
  | partialGlobalFailure (cause : EditError) (lastModified : Option Nat)
  /-- What the file system answered. -/
  | io (text : String)
  deriving Repr, DecidableEq

def EditError.message : EditError → String
  | badRange => "bad range: second address precedes the first"
  | lineOutOfRange line => s!"line {line} is out of range"
  | negativeLine => "negative line number"
  | labelNotSet name => s!"label '{name} is not set"
  | badLabel name => s!"bad label name {Quoted.char name}"
  | patternNotFound => "search string not found"
  | missingAddress => "address expected"
  | zeroLine => "zero line number"
  | notInMode letter mode => s!"command {letter} is not available in {mode.name} mode"
  | notInGlobal letter => s!"command {letter} cannot be used inside a global command"
  | destinationInRange => "destination lies inside the range being moved"
  | trailingText letter => s!"unexpected text after command {letter}"
  | malformed fault => s!"bad regular expression: {fault.message}"
  | emptyMatchRepeat => "empty match cannot be combined with a global or numbered replacement"
  | noRememberedPattern => "no remembered search string"
  | noRememberedReplacement => "no remembered replacement string"
  | badDelimiter c => s!"bad delimiter {Quoted.char c}"
  | markupAltered => "cannot alter or remove a hyperlink or form field"
  | badFlags text => s!"unexpected substitute flags {Quoted.string text}"
  | resultTooLong limit => s!"line exceeds {limit} bytes after replacement"
  | tooManyLines limit => s!"buffer limit of {limit} lines reached"
  | nothingToUndo => "nothing to undo"
  | sessionActive slot => s!"session {slot} is already active"
  | sessionInactive slot => s!"session {slot} is not active"
  | badSession slot => s!"session {slot} is out of range"
  | noPreviousWindow => "no previous window"
  | unsavedChanges => "expecting `w'"
  | noFileName => "no file name"
  | noSessionsFree => "no free sessions"
  | notEnteringText => "not entering text"
  | interrupted => "interrupted"
  | unknownCommand letter => s!"unknown command {Quoted.char letter}"
  | noMatch => "no match"
  | noLinesMarked => "no lines match the global pattern"
  | partialGlobalFailure cause none => s!"global command stopped: {cause.message}"
  | partialGlobalFailure cause (some line) =>
    s!"global command stopped: {cause.message} (last change at line {line})"
  | io text => text

end LineEditor
