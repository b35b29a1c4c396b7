/-!
# Patterns as written

The tree of a pattern keeps what its text says. What a part means depends on the flags in force
where it stands, so that is settled later.
-/

namespace LineEditor.Regex

/-- What a pattern can turn on and off in its text. -/
inductive Flag where
  | ignoreCase
  | multiLine
  | dotAll
  | swapGreed
  | unicode
  | crlf
  | verbose
  deriving Repr, DecidableEq

/-- Flags with the value that each is given, in the order written. -/
abbrev FlagChanges := List (Flag × Bool)

def FlagChanges.value? (changes : FlagChanges) (f : Flag) : Option Bool :=
  (changes.find? fun c => c.1 == f).map Prod.snd

/-- One character. A two-digit hexadecimal escape names a byte where patterns match bytes. -/
structure Literal where
  char : Char
  isByte : Bool
  deriving Repr, DecidableEq

/-- The classes with a letter of their own. -/
inductive Shorthand where
  | digit
  | space
  | word
  deriving Repr, DecidableEq

/-- The classes with a name between colons. -/
inductive AsciiClass where
  | alnum | alpha | ascii | blank | cntrl | digit | graph | lower | print | punct | space | upper
  | word | xdigit
  deriving Repr, DecidableEq

/-- A property by name, alone or with a value. -/
inductive PropertyName where
  | alone (name : List Char)
  | valued (name value : List Char)
  deriving Repr, DecidableEq

inductive SetOp where
  | intersection
  | difference
  | symmetricDifference
  deriving Repr, DecidableEq

/-- What stands between square brackets. -/
inductive ClassTree where
  | nothing
  | literal (l : Literal)
  | range (first last : Literal)
  | ascii (c : AsciiClass) (negated : Bool)
  | shorthand (c : Shorthand) (negated : Bool)
  | property (p : PropertyName) (negated : Bool)
  | bracketed (negated : Bool) (body : ClassTree)
  | union (first rest : ClassTree)
  | combine (op : SetOp) (left right : ClassTree)
  deriving Repr, DecidableEq

/-- Conditions on a place in the text. -/
inductive Assertion where
  | startLine | endLine | startText | endText
  | wordBoundary | notWordBoundary
  | wordStart | wordEnd | wordStartHalf | wordEndHalf
  deriving Repr, DecidableEq

/-- A pattern as written. -/
inductive Tree where
  | empty
  | literal (l : Literal)
  | dot
  | assertion (a : Assertion)
  | shorthand (c : Shorthand) (negated : Bool)
  | property (p : PropertyName) (negated : Bool)
  | bracketed (negated : Bool) (body : ClassTree)
  /-- A directive such as `(?i)`, in force up to the end of the group around it. -/
  | setFlags (changes : FlagChanges)
  | capture (index : Nat) (body : Tree)
  | group (changes : FlagChanges) (body : Tree)
  | repeated (body : Tree) (least : Nat) (most : Option Nat) (greedy : Bool)
  | seq (first rest : Tree)
  | alt (first rest : Tree)
  deriving Repr, DecidableEq

end LineEditor.Regex
