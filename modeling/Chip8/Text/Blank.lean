/-!
Blank characters: those that may stand around a number.

These are the six blanks of ASCII that move the print position and, beyond ASCII, the characters
with the Unicode property `White_Space`. The separators U+001C to U+001F are not among them.
-/

namespace Chip8.Text

def blanksBeyondAscii : List Nat := [
  0x85, 0xA0, 0x1680, 0x2000, 0x2001, 0x2002, 0x2003, 0x2004, 0x2005, 0x2006, 0x2007, 0x2008,
  0x2009, 0x200A, 0x2028, 0x2029, 0x202F, 0x205F, 0x3000]

def isBlank (c : Char) : Bool :=
  c == ' ' || (9 ≤ c.toNat && c.toNat ≤ 13) || blanksBeyondAscii.contains c.toNat

/-- Drops the blanks at both ends. -/
def trimBlanks (text : List Char) : List Char :=
  ((text.dropWhile isBlank).reverse.dropWhile isBlank).reverse

end Chip8.Text
