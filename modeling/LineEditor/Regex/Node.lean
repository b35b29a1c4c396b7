import LineEditor.Text.Utf8
import LineEditor.Unicode.CodeSet

/-!
# Patterns as matched

A node says what is matched without any flags: sets of code points or of bytes, conditions on a
place, groups, and the ways to join them.
-/

namespace LineEditor.Regex

open LineEditor.Unicode (CodeSet)

/-- Conditions on a place in a line. Word characters are those of Unicode or those of ASCII. -/
inductive Look where
  | start
  | stop
  | startLine
  | stopLine
  | startLineCrlf
  | stopLineCrlf
  | boundary (unicode : Bool)
  | notBoundary (unicode : Bool)
  | wordStart (unicode : Bool)
  | wordEnd (unicode : Bool)
  | wordStartHalf (unicode : Bool)
  | wordEndHalf (unicode : Bool)
  deriving Repr, DecidableEq

/-- A pattern as matched. -/
inductive Node where
  | empty
  /-- These bytes, one after the other. -/
  | bytes (bs : Bytes)
  /-- One well-formed code point of the set. -/
  | codePoint (s : CodeSet)
  /-- One byte of the set. -/
  | byteIn (s : CodeSet)
  | look (l : Look)
  | capture (index : Nat) (body : Node)
  | repeated (body : Node) (least : Nat) (most : Option Nat) (greedy : Bool)
  | seq (first rest : Node)
  | alt (first rest : Node)
  deriving Repr, DecidableEq

namespace Node

/-- Whether all that a node can match is the empty text. -/
def matchesOnlyEmpty : Node → Bool
  | empty => true
  | bytes bs => bs.isEmpty
  | codePoint _ => false
  | byteIn _ => false
  | look _ => true
  | capture _ body => body.matchesOnlyEmpty
  | repeated body _ most _ => body.matchesOnlyEmpty || most == some 0
  | seq a b => a.matchesOnlyEmpty && b.matchesOnlyEmpty
  | alt a b => a.matchesOnlyEmpty && b.matchesOnlyEmpty

/-- A repetition, the trivial ones resolved: no copies match the empty text, one copy is the body,
and a body that matches only the empty text need not be matched twice. -/
def repeatOf (body : Node) (least : Nat) (most : Option Nat) (greedy : Bool) : Node :=
  let (least, most) :=
    if body.matchesOnlyEmpty then (min least 1, some (min (most.getD 1) 1)) else (least, most)
  if most == some 0 then empty
  else if least == 1 && most == some 1 then body
  else repeated body least most greedy

/-- The greatest number of a capture group, 0 if there is none. -/
def lastCapture : Node → Nat
  | capture index body => max index body.lastCapture
  | repeated body _ _ _ => body.lastCapture
  | seq a b => max a.lastCapture b.lastCapture
  | alt a b => max a.lastCapture b.lastCapture
  | _ => 0

/-- The number of bytes that a compiled pattern takes for one instruction. -/
def instructionSize : Nat := 32

/-- An estimate of the bytes that the compiled node takes. A set of code points past ASCII is a
small automaton over bytes, about in proportion to its ranges. -/
def size : Node → Nat
  | empty => instructionSize
  | bytes bs => instructionSize * bs.length
  | codePoint s =>
    instructionSize +
      if s.ranges.any fun r => 127 < r.2 then 26 * s.ranges.length else 8 * s.ranges.length
  | byteIn s => instructionSize + 8 * s.ranges.length
  | look _ => instructionSize
  | capture _ body => 2 * instructionSize + body.size
  | repeated body least most _ =>
    max 1 (max least (most.getD (least + 1))) * (body.size + instructionSize)
  | seq a b => a.size + b.size
  | alt a b => instructionSize + a.size + b.size

end Node

end LineEditor.Regex
