import LineEditor.Unicode.Property

/-!
# Character classes

The classes that the editor and its patterns ask for most: white space, letters and digits, the
characters of a word, and what a message may show unescaped.
-/

namespace LineEditor.Unicode

/-- White space: the property `White_Space`. -/
def spaceSet : CodeSet := CodeSet.ofPacked whiteSpaceRuns

/-- The property `Alphabetic`. -/
def alphabeticSet : CodeSet := CodeSet.ofPacked alphabeticRuns

/-- Decimal digits: the category `Nd`. -/
def digitSet : CodeSet := inCategories [8]

/-- Numbers of any kind: the categories `Nd`, `Nl` and `No`. -/
def numberSet : CodeSet := inCategories [8, 9, 10]

/-- The characters of a word: letters, marks, decimal digits, connectors and the join controls. -/
def wordSet : CodeSet :=
  ((inCategories [5, 6, 7, 8, 11]).union (CodeSet.ofPacked joinControlRuns)).union alphabeticSet

/-- What never shows: controls, formats, surrogates, private and unassigned code points, and all
separators. -/
def hiddenSet : CodeSet := inCategories [22, 23, 24, 25, 26, 27, 28, 29]

/-- Marks that extend the character before them. -/
def extenderSet : CodeSet := CodeSet.ofPacked graphemeExtendRuns

def isSpace (c : Char) : Bool := spaceSet.contains c.toNat

def isAlphabetic (c : Char) : Bool := alphabeticSet.contains c.toNat

def isAlphanumeric (c : Char) : Bool := isAlphabetic c || numberSet.contains c.toNat

def isPrintable (c : Char) : Bool :=
  c == ' ' || !(hiddenSet.contains c.toNat || extenderSet.contains c.toNat)

def trimStart (s : List Char) : List Char := s.dropWhile isSpace

def trim (s : List Char) : List Char :=
  ((trimStart s).reverse.dropWhile isSpace).reverse

end LineEditor.Unicode
