import LineEditor.Regex.Fault
import LineEditor.Regex.Node
import LineEditor.Regex.Tree
import LineEditor.Unicode.Classes

/-!
# What a pattern means under its flags

A tree is resolved from left to right, the flags in force handed on from part to part. Where Unicode
is off, patterns match bytes: classes are sets of bytes, case is that of ASCII, and no property can
be asked for.
-/

namespace LineEditor.Regex

open LineEditor.Unicode (CodeSet)

/-- The flags in force at a place of a pattern. -/
structure Flags where
  ignoreCase : Bool
  multiLine : Bool
  dotAll : Bool
  swapGreed : Bool
  unicode : Bool
  crlf : Bool
  deriving Repr, DecidableEq

namespace Flags

def apply (f : Flags) (changes : FlagChanges) : Flags where
  ignoreCase := (changes.value? .ignoreCase).getD f.ignoreCase
  multiLine := (changes.value? .multiLine).getD f.multiLine
  dotAll := (changes.value? .dotAll).getD f.dotAll
  swapGreed := (changes.value? .swapGreed).getD f.swapGreed
  unicode := (changes.value? .unicode).getD f.unicode
  crlf := (changes.value? .crlf).getD f.crlf

def top (f : Flags) : Nat := if f.unicode then Unicode.maxCode else 255

def fold (f : Flags) (s : CodeSet) : CodeSet :=
  if !f.ignoreCase then s else if f.unicode then s.foldCase else s.foldAsciiCase

/-- A class folded and then complemented if it is negated. -/
def foldAndNegate (f : Flags) (negated : Bool) (s : CodeSet) : CodeSet :=
  if negated then (f.fold s).complement f.top else f.fold s

def classNode (f : Flags) (s : CodeSet) : Node :=
  if f.unicode then .codePoint s else .byteIn s

end Flags

def AsciiClass.ranges : AsciiClass → List (Nat × Nat)
  | alnum => [(48, 57), (65, 90), (97, 122)]
  | alpha => [(65, 90), (97, 122)]
  | ascii => [(0, 127)]
  | blank => [(9, 9), (32, 32)]
  | cntrl => [(0, 31), (127, 127)]
  | digit => [(48, 57)]
  | graph => [(33, 126)]
  | lower => [(97, 122)]
  | print => [(32, 126)]
  | punct => [(33, 47), (58, 64), (91, 96), (123, 126)]
  | space => [(9, 13), (32, 32)]
  | upper => [(65, 90)]
  | word => [(48, 57), (65, 90), (95, 95), (97, 122)]
  | xdigit => [(48, 57), (65, 70), (97, 102)]

def Shorthand.members (unicode : Bool) : Shorthand → CodeSet
  | digit => if unicode then Unicode.digitSet else ⟨AsciiClass.digit.ranges⟩
  | space => if unicode then Unicode.spaceSet else ⟨AsciiClass.space.ranges⟩
  | word => if unicode then Unicode.wordSet else ⟨AsciiClass.word.ranges⟩

/-- A shorthand class; it is closed under case already. -/
def Flags.shorthand (f : Flags) (c : Shorthand) (negated : Bool) : CodeSet :=
  if negated then (c.members f.unicode).complement f.top else c.members f.unicode

def Flags.property (f : Flags) (p : PropertyName) (negated : Bool) : Except Fault CodeSet :=
  if !f.unicode then .error .unicodeNotAllowed
  else
    match p with
    | .alone name =>
      match Unicode.property? name with
      | some s => .ok (f.foldAndNegate negated s)
      | none => .error .propertyNotFound
    | .valued name value =>
      match Unicode.propertyValue name value with
      | .ok s => .ok (f.foldAndNegate negated s)
      | .error .noProperty => .error .propertyNotFound
      | .error .noValue => .error .propertyValueNotFound

/-- The element of a class that a literal names: where bytes are matched, a character past ASCII
names none. -/
def Flags.element (f : Flags) (l : Literal) : Except Fault Nat :=
  if f.unicode || l.isByte || l.char.toNat < 128 then .ok l.char.toNat
  else .error .unicodeNotAllowed

def Flags.members (f : Flags) : ClassTree → Except Fault CodeSet
  | .nothing => .ok .empty
  | .literal l => do return .singleton (← f.element l)
  | .range first last => do
    let lo ← f.element first
    let hi ← f.element last
    return CodeSet.ofRanges [(lo, hi)]
  | .ascii c negated => .ok (f.foldAndNegate negated ⟨c.ranges⟩)
  | .shorthand c negated => .ok (f.shorthand c negated)
  | .property p negated => f.property p negated
  | .bracketed negated body => do return f.foldAndNegate negated (← f.members body)
  | .union first rest => do
    let a ← f.members first
    let b ← f.members rest
    return b.union a
  | .combine op left right => do
    let a ← f.members left
    let b ← f.members right
    let a := f.fold a
    let b := f.fold b
    match op with
    | .intersection => return a.inter b f.top
    | .difference => return a.diff b f.top
    | .symmetricDifference => return a.symmDiff b f.top

/-- What a literal matches: a byte, a character, or the characters that differ from it by case. -/
def Flags.literal (f : Flags) (l : Literal) : Node :=
  let exact := Node.bytes (String.utf8EncodeChar l.char)
  if !f.unicode && l.isByte && 128 ≤ l.char.toNat then .bytes [l.char.toNat.toUInt8]
  else
    let s := CodeSet.singleton l.char.toNat
    let folded := f.fold s
    if folded == s then exact else f.classNode folded

def Flags.dot (f : Flags) : Node :=
  let all : CodeSet := ⟨[(0, f.top)]⟩
  if f.dotAll then f.classNode all
  else if f.crlf then f.classNode ((CodeSet.ofRanges [(10, 10), (13, 13)]).complement f.top)
  else f.classNode ((CodeSet.singleton 10).complement f.top)

def Flags.look (f : Flags) : Assertion → Look
  | .startLine => if !f.multiLine then .start else if f.crlf then .startLineCrlf else .startLine
  | .endLine => if !f.multiLine then .stop else if f.crlf then .stopLineCrlf else .stopLine
  | .startText => .start
  | .endText => .stop
  | .wordBoundary => .boundary f.unicode
  | .notWordBoundary => .notBoundary f.unicode
  | .wordStart => .wordStart f.unicode
  | .wordEnd => .wordEnd f.unicode
  | .wordStartHalf => .wordStartHalf f.unicode
  | .wordEndHalf => .wordEndHalf f.unicode

/-- The node of a tree, and the flags in force after it. -/
def Flags.resolve (f : Flags) : Tree → Except Fault (Node × Flags)
  | .empty => .ok (.empty, f)
  | .literal l => .ok (f.literal l, f)
  | .dot => .ok (f.dot, f)
  | .assertion a => .ok (.look (f.look a), f)
  | .shorthand c negated => .ok (f.classNode (f.shorthand c negated), f)
  | .property p negated => do return (f.classNode (← f.property p negated), f)
  | .bracketed negated body => do
    return (f.classNode (f.foldAndNegate negated (← f.members body)), f)
  | .setFlags changes => .ok (.empty, f.apply changes)
  | .capture index body => do
    let (node, _) ← f.resolve body
    return (.capture index node, f)
  | .group changes body => do
    let (node, _) ← (f.apply changes).resolve body
    return (node, f)
  | .repeated body least most greedy => do
    let (node, _) ← f.resolve body
    return (node.repeatOf least most (greedy != f.swapGreed), f)
  | .seq first rest => do
    let (a, f) ← f.resolve first
    let (b, f) ← f.resolve rest
    return (.seq a b, f)
  | .alt first rest => do
    let (a, f) ← f.resolve first
    let (b, f) ← f.resolve rest
    return (.alt a b, f)

end LineEditor.Regex
