/-!
# Faults of a pattern

What can be wrong with a pattern, and the words for it.
-/

namespace LineEditor.Regex

/-- The nesting of groups, brackets, repetitions and branches that a pattern may have. -/
def nestLimit : Nat := 250

/-- The size in bytes that a compiled pattern may have. -/
def sizeLimit : Nat := 10485760

/-- Why a pattern is refused. -/
inductive Fault where
  | groupUnclosed
  | groupUnopened
  | groupNameUnclosed
  | groupNameEmpty
  | groupNameInvalid
  | groupNameDuplicate
  | flagUnrecognized
  | flagDuplicate
  | flagDangling
  | flagNegationRepeated
  | flagExpected
  | repetitionMissing
  | countNotDecimal
  | countUnclosed
  | countOrder
  | decimalInvalid
  | classUnclosed
  | classEscapeInvalid
  | classRangeOrder
  | classRangeBound
  | escapeUnfinished
  | escapeUnrecognized
  | hexEmpty
  | hexDigitInvalid
  | hexNotScalar
  | backreference
  | lookAround
  | boundaryUnclosed
  | boundaryUnrecognized
  | boundaryUnfinished
  | nestedTooDeep
  | propertyNameInvalid
  | propertyNotFound
  | propertyValueNotFound
  | unicodeNotAllowed
  | tooBig
  deriving Repr, DecidableEq

def Fault.message : Fault → String
  | groupUnclosed => "unclosed group"
  | groupUnopened => "unopened group"
  | groupNameUnclosed => "unclosed capture group name"
  | groupNameEmpty => "empty capture group name"
  | groupNameInvalid => "invalid capture group character"
  | groupNameDuplicate => "duplicate capture group name"
  | flagUnrecognized => "unrecognized flag"
  | flagDuplicate => "duplicate flag"
  | flagDangling => "dangling flag negation operator"
  | flagNegationRepeated => "flag negation operator repeated"
  | flagExpected => "expected flag but got end of regex"
  | repetitionMissing => "repetition operator missing expression"
  | countNotDecimal => "repetition quantifier expects a valid decimal"
  | countUnclosed => "unclosed counted repetition"
  | countOrder => "invalid repetition count range, the start must be <= the end"
  | decimalInvalid => "decimal literal invalid"
  | classUnclosed => "unclosed character class"
  | classEscapeInvalid => "invalid escape sequence found in character class"
  | classRangeOrder => "invalid character class range, the start must be <= the end"
  | classRangeBound => "invalid range boundary, must be a literal"
  | escapeUnfinished => "incomplete escape sequence, reached end of pattern prematurely"
  | escapeUnrecognized => "unrecognized escape sequence"
  | hexEmpty => "hexadecimal literal empty"
  | hexDigitInvalid => "invalid hexadecimal digit"
  | hexNotScalar => "hexadecimal literal is not a Unicode scalar value"
  | backreference => "backreferences are not supported"
  | lookAround => "look-around, including look-ahead and look-behind, is not supported"
  | boundaryUnclosed =>
    "special word boundary assertion is either unclosed or contains an invalid character"
  | boundaryUnrecognized =>
    "unrecognized special word boundary assertion, valid choices are: start, end, start-half or end-half"
  | boundaryUnfinished =>
    "found either the beginning of a special word boundary or a bounded repetition on a \\b with an opening brace, but no closing brace"
  | nestedTooDeep => s!"exceed the maximum number of nested parentheses/brackets ({nestLimit})"
  | propertyNameInvalid => "invalid Unicode character class"
  | propertyNotFound => "Unicode property not found"
  | propertyValueNotFound => "Unicode property value not found"
  | unicodeNotAllowed => "Unicode not allowed here"
  | tooBig => s!"Compiled regex exceeds size limit of {sizeLimit} bytes."

end LineEditor.Regex
