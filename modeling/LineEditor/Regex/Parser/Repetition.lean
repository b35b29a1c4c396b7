import LineEditor.Regex.Fault
import LineEditor.Regex.Parser.Blanks

/-!
# Counts of repetitions

A count between braces: one number, a least number, or a least and a greatest one.
-/

namespace LineEditor.Regex

/-- The decimal digits at the front, and their value if there are any. -/
def readDigits (verbose : Bool) (acc : Option Nat) : Nat → Chars → Option Nat × Chars
  | fuel + 1, c :: cs =>
    if c.isDigit then
      readDigits verbose (some (acc.getD 0 * 10 + (c.toNat - 48))) fuel (skipIgnored verbose cs)
    else (acc, c :: cs)
  | _, cs => (acc, cs)

def readCount (verbose : Bool) (cs : Chars) : Except Fault Nat × Chars :=
  let (value, rest) := readDigits verbose none (cs.length + 1) (cs.dropWhile Unicode.isSpace)
  let rest :=
    match rest with
    | c :: _ =>
      if Unicode.isSpace c then skipIgnored verbose (rest.dropWhile Unicode.isSpace) else rest
    | [] => rest
  match value with
  | none => (.error .countNotDecimal, rest)
  | some n => (if n ≤ 0xffffffff then .ok n else .error .decimalInvalid, rest)

/-- The bounds of a counted repetition, after its opening brace and up to its closing one. -/
def readBounds (verbose : Bool) (cs : Chars) : Except Fault ((Nat × Option Nat) × Chars) :=
  match skipIgnored verbose cs with
  | [] => .error .countUnclosed
  | cs => do
    let (least, rest) := readCount verbose cs
    let (bounds, rest) ←
      match rest with
      | [] => .error .countUnclosed
      | ',' :: rest =>
        match skipIgnored verbose rest with
        | [] => .error .countUnclosed
        | '\x7d' :: rest => do pure ((← least, none), '\x7d' :: rest)
        | cs => do
          let least ← least
          let (most, rest) := readCount verbose cs
          pure ((least, some (← most)), rest)
      | rest => do
        let n ← least
        pure ((n, some n), rest)
    match rest with
    | '\x7d' :: rest => .ok (bounds, rest)
    | _ => .error .countUnclosed

end LineEditor.Regex
