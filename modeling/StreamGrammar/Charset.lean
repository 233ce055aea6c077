import StreamGrammar.Text.Ranges

/-!
# Character classes

The classes that the grammars share, as lists of ASCII characters and as tests
on the number of an element, so that they apply to code points and bytes alike.
-/

namespace StreamGrammar.Charset

/-! ## Lists of characters -/

/-- The digits of hexadecimal numerals. -/
def hexDigits : List Char :=
  ['0', '1', '2', '3', '4', '5', '6', '7', '8', '9', 'a', 'b', 'c', 'd', 'e', 'f',
    'A', 'B', 'C', 'D', 'E', 'F']

/-- The control characters before the blank. -/
def control : List Char := (List.range 0x20).map Char.ofNat

/-- The marks that stand for themselves in a URI. -/
def unreservedMarks : List Char := ['-', '.', '_', '~']

/-- The delimiters within a component of a URI. -/
def subDelims : List Char := ['!', '$', '&', '\'', '(', ')', '*', '+', ',', ';', '=']

/-- The marks in a URI scheme. -/
def schemeMarks : List Char := ['+', '-', '.']

/-- The visible characters, and the blank, that no URI holds. -/
def uriIllegal : List Char := [' ', '"', '<', '>', '\\', '^', '\x60', '\x7b', '|', '\x7d']

/-- The blanks between the tokens of JSON. -/
def jsonWhitespace : List Char := [' ', '\t', '\n', '\r']

/-- The characters outside ASCII that an internationalised URI may hold as they
are. -/
def ucscharRanges : Ranges := [
  (0xA0, 0xD7FF), (0xF900, 0xFDCF), (0xFDF0, 0xFFEF), (0x10000, 0x1FFFD), (0x20000, 0x2FFFD),
  (0x30000, 0x3FFFD), (0x40000, 0x4FFFD), (0x50000, 0x5FFFD), (0x60000, 0x6FFFD),
  (0x70000, 0x7FFFD), (0x80000, 0x8FFFD), (0x90000, 0x9FFFD), (0xA0000, 0xAFFFD),
  (0xB0000, 0xBFFFD), (0xC0000, 0xCFFFD), (0xD0000, 0xDFFFD), (0xE1000, 0xEFFFD)]

/-! ## Tests on numbers -/

/-- Whether a number is that of one of some characters. -/
def isOneOf (chars : List Char) (n : Nat) : Bool := chars.any fun c => c.toNat == n

/-- A decimal digit. -/
def isDigit (n : Nat) : Bool := 0x30 ≤ n && n ≤ 0x39

/-- An ASCII letter. -/
def isAlpha (n : Nat) : Bool := (0x41 ≤ n && n ≤ 0x5A) || (0x61 ≤ n && n ≤ 0x7A)

/-- An ASCII letter or a digit. -/
def isAlphanumeric (n : Nat) : Bool := isAlpha n || isDigit n

/-- A hexadecimal digit. -/
def isHexDigit (n : Nat) : Bool :=
  isDigit n || (0x41 ≤ n && n ≤ 0x46) || (0x61 ≤ n && n ≤ 0x66)

/-- A character outside ASCII that an internationalised URI may hold. -/
def isUcschar (n : Nat) : Bool := ucscharRanges.contains n

/-- A character that stands for itself in a URI. -/
def isUnreserved (n : Nat) : Bool :=
  if n < 0x80 then isAlphanumeric n || isOneOf unreservedMarks n else isUcschar n

/-- A character that ends a URI because none can hold it. -/
def isUriEnd (n : Nat) : Bool := n < 0x20 || n == 0x7F || isOneOf uriIllegal n

/-- The value of a hexadecimal digit. -/
def hexValue (n : Nat) : Nat :=
  if n ≤ 0x39 then n - 0x30 else if n ≤ 0x46 then n - 0x37 else n - 0x57

end StreamGrammar.Charset
