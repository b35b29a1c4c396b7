import LineEditor.Regex.Matcher
import LineEditor.Substitution.Template

/-!
# Substitution in a line

The matches of a line are visited from left to right, none overlapping the one before, and the
chosen ones are replaced. An empty match moves the walk on by one byte. A line that grows past the
limit is given up at once.
-/

namespace LineEditor

open Regex (Match)

/-- Which matches of a line are replaced: all, or one by its number. -/
inductive Occurrence where
  | all
  | nth (n : Nat)
  deriving Repr, DecidableEq

namespace Occurrence

def wants : Occurrence → Nat → Bool
  | all, _ => true
  | nth n, i => i == n

/-- Whether a match that was replaced is the last one to be. -/
def isSingle : Occurrence → Bool
  | all => false
  | nth _ => true

end Occurrence

/-- What becomes of a line. -/
inductive Revision where
  | unchanged
  | replaced (line : Bytes)
  | tooLong
  deriving Repr, DecidableEq

namespace Substitution

/-- Whether a request depends on where empty matches fall: not the first match alone is replaced,
and the pattern matches the empty line. -/
def isAmbiguous (m : Matcher) (which : Occurrence) : Bool :=
  which != .nth 1 && m.isMatch []

/-- A line revised up to some place. -/
structure Draft where
  /-- The pieces written, last one first. -/
  pieces : List Bytes
  size : Nat
  /-- How much of the line is written or replaced. -/
  done : Nat
  deriving Repr, DecidableEq

namespace Draft

def start : Draft := ⟨[], 0, 0⟩

def add (d : Draft) (piece : Bytes) (done : Nat) : Draft :=
  ⟨piece :: d.pieces, d.size + piece.length, done⟩

/-- Writes the text before a match and then what takes its place. -/
def replace (d : Draft) (line : Bytes) (m : Match) (text : Bytes) : Except Breach Draft := do
  return (d.add (← line.slice d.done m.start) m.stop).add text m.stop

/-- The pieces written, and the rest of the line behind them. -/
def finish (d : Draft) (line : Bytes) : Except Breach Bytes := do
  return d.pieces.reverse.flatten ++ (← line.slice d.done line.length)

end Draft

/-- The first match at or after `start`. To search from behind the end of the line is a breach. -/
def searchAt (matcher : Matcher) (line : Bytes) (start : Nat) : Except Breach (Option Match) :=
  if line.length < start then .error (.bytesOutside start line.length line.length)
  else .ok (matcher.search line start)

theorem searchAt_of_le {matcher : Matcher} {line : Bytes} {start : Nat} (h : start ≤ line.length) :
    searchAt matcher line start = .ok (matcher.search line start) :=
  if_neg (Nat.not_lt.mpr h)

def nextStart (m : Match) : Nat := if m.stop = m.start then m.stop + 1 else m.stop

/-- Visits the matches from `start` on, of which `seen` were met before. No draft is left when the
line grows too long. -/
def walk (matcher : Matcher) (template : Bytes) (which : Occurrence) (limit : Nat) (line : Bytes) :
    Nat → Nat → Nat → Draft → Except Breach (Option Draft)
  | 0, _, _, d => return some d
  | fuel + 1, start, seen, d =>
    if line.length < start then return some d
    else do
      match ← searchAt matcher line start with
      | none => return some d
      | some m =>
        if which.wants (seen + 1) then
          let d ← d.replace line m (← Template.replacement template line m)
          if limit < d.size then return none
          else if which.isSingle then return some d
          else walk matcher template which limit line fuel (nextStart m) (seen + 1) d
        else walk matcher template which limit line fuel (nextStart m) (seen + 1) d

def apply (matcher : Matcher) (template : Bytes) (which : Occurrence) (limit : Nat) (line : Bytes) :
    Except Breach Revision := do
  match ← walk matcher template which limit line (line.length + 2) 0 0 .start with
  | none => return .tooLong
  | some d =>
    if d.pieces.isEmpty then return .unchanged
    else
      let new ← d.finish line
      return if limit < new.length then .tooLong else .replaced new

end Substitution

end LineEditor
