import LineEditor.Regex.Meaning
import LineEditor.Regex.Parser
import LineEditor.Regex.Search

/-!
# Matchers

All that the editor asks of a pattern is the first match at or after an offset of a line. A matcher
answers just that; compiling the text of a pattern gives one.
-/

namespace LineEditor

open Regex (Match Fault)

/-- Finds the first match in a line at or after an offset, and where its groups are. -/
structure Matcher where
  search : Bytes → Nat → Option Match

namespace Matcher

def isMatch (m : Matcher) (line : Bytes) : Bool := (m.search line 0).isSome

/-- The flags in force where a pattern starts. Lines of binary windows are matched byte by byte. -/
def startFlags (ignoreCase binary : Bool) : Regex.Flags where
  ignoreCase := ignoreCase
  multiLine := false
  dotAll := false
  swapGreed := false
  unicode := !binary
  crlf := false

/-- What the text of a pattern says, or why it says nothing. -/
def node (source : List Char) (ignoreCase binary : Bool) : Except Fault Regex.Node := do
  let tree ← Regex.parse source
  let (node, _) ← (startFlags ignoreCase binary).resolve tree
  return node

/-- The matcher of a pattern by a measure of its size. A pattern over the limit is refused. -/
def compileBy (size : Regex.Node → Nat) (source : List Char) (ignoreCase binary : Bool) :
    Except Fault Matcher := do
  let node ← node source ignoreCase binary
  if Regex.sizeLimit < size node then throw .tooBig
  return ⟨(Regex.Code.ofNode node).search⟩

def compile (source : List Char) (ignoreCase binary : Bool) : Except Fault Matcher :=
  compileBy Regex.Node.size source ignoreCase binary

end Matcher

end LineEditor
