import LineEditor.Unicode.Classes

/-!
# Blanks in a pattern

Where the verbose flag is on, white space and comments mean nothing. Which of them are passed over,
and where, is decided here for the whole syntax.
-/

namespace LineEditor.Regex

abbrev Chars := List Char

/-- The text after blanks and comments; `inComment` says that a comment is open. -/
def skipBlanks (inComment : Bool) : Chars → Chars
  | [] => []
  | c :: cs =>
    if inComment then skipBlanks (c != '\n') cs
    else if Unicode.isSpace c then skipBlanks false cs
    else if c == '#' then skipBlanks true cs
    else c :: cs

/-- Blanks and comments mean nothing where the verbose flag is on. -/
def skipIgnored (verbose : Bool) (cs : Chars) : Chars :=
  if verbose then skipBlanks false cs else cs

/-- The next character that counts after the one at the front. A comment sign is passed over once,
the text of the comment is not. -/
def peekSecond (verbose : Bool) (cs : Chars) : Option Char :=
  if verbose then
    match (cs.drop 1).dropWhile Unicode.isSpace with
    | '#' :: rest => (rest.dropWhile Unicode.isSpace).head?
    | rest => rest.head?
  else (cs.drop 1).head?

end LineEditor.Regex
