set_option autoImplicit false

/-!
# Blank characters

Three classes of blank characters are used by the bundler, and they differ: the blanks of
Unicode (which separate words in a compiler listing), the six blanks of ASCII (which may stand
before a `declare` that begins its line), and the characters that end a line of a listing.
This module names them and strips them from the ends of a text.
-/

namespace DeclBundle.Text

/-- The six blank characters of ASCII: space, tab, line feed, vertical tab, form feed and
carriage return. -/
def isAsciiBlank (c : Char) : Bool :=
  c == ' ' || ('\t' ≤ c && c ≤ '\r')

/-- The blank characters of Unicode: those with the bidirectional class of a separator or the
category of a space. -/
def isBlank (c : Char) : Bool :=
  let n := c.toNat
  (0x09 ≤ n && n ≤ 0x0D) || (0x1C ≤ n && n ≤ 0x20) || n == 0x85 || n == 0xA0 || n == 0x1680 ||
    (0x2000 ≤ n && n ≤ 0x200A) || n == 0x2028 || n == 0x2029 || n == 0x202F || n == 0x205F ||
    n == 0x3000

/-- The characters that end a line of a listing: the vertical controls, the separators of
information, next line, and the line and paragraph separators. -/
def isLineEnd (c : Char) : Bool :=
  let n := c.toNat
  (0x0A ≤ n && n ≤ 0x0D) || (0x1C ≤ n && n ≤ 0x1E) || n == 0x85 || n == 0x2028 || n == 0x2029

/-! ## Stripping -/

/-- The list without the leading elements that satisfy `p`. -/
def stripStart (p : Char → Bool) (cs : List Char) : List Char :=
  cs.dropWhile p

/-- The list without the trailing elements that satisfy `p`. -/
def stripEnd (p : Char → Bool) (cs : List Char) : List Char :=
  (cs.reverse.dropWhile p).reverse

/-- The list without the leading and the trailing elements that satisfy `p`. -/
def strip (p : Char → Bool) (cs : List Char) : List Char :=
  stripEnd p (stripStart p cs)

/-- The text without leading and trailing blanks. -/
def trimBlank (s : String) : String :=
  .ofList (strip isBlank s.toList)

end DeclBundle.Text
