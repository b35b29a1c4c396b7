import LineEditor.Command.Delimited
import LineEditor.Engine.Basic
import LineEditor.Regex.Matcher

/-!
# Patterns in commands

An empty pattern stands for the one remembered. A pattern is compiled for the window it is used in:
lines of a binary window are matched byte by byte.
-/

namespace LineEditor

def resolveSearch (remembered : Option (List Char)) (body : List Char) :
    Except EditError (List Char) :=
  if body.isEmpty then
    match remembered with
    | some source => return source
    | none => throw .noRememberedPattern
  else return body

def compilePattern (source : List Char) (ignoreCase binary : Bool) : Except EditError Matcher :=
  match Matcher.compile source ignoreCase binary with
  | .ok m => return m
  | .error fault => throw (.malformed (.syntaxFault fault))

def Window.compile (w : Window) (source : List Char) (ignoreCase : Bool) :
    Except EditError Matcher :=
  compilePattern source ignoreCase w.flags.binary

namespace Query

/-- The pattern that a text stands for, given what is remembered now. -/
def resolve (body : List Char) : Query (List Char) := do
  liftExcept (resolveSearch (← get).search body)

def remember (source : List Char) : Query Unit :=
  modify fun r => { r with search := some source }

end Query

end LineEditor
