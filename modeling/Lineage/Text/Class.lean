import Lineage.Text.Letters
import Lineage.Text.Numerals
import Lineage.Text.Words

/-!
# Classes of characters

White space, letters, digits, and the characters of words, over all scripts.
-/

namespace Lineage.Text

/-- The white space of all scripts. -/
def blanks : List Span := [
  (0x9, 0xD), (0x20, 0x20), (0x85, 0x85), (0xA0, 0xA0), (0x1680, 0x1680), (0x2000, 0x200A),
  (0x2028, 0x2029), (0x202F, 0x202F), (0x205F, 0x205F), (0x3000, 0x3000)]

/-- White space of any script. -/
def isBlank (c : Char) : Bool := blanks.any fun (first, last) => first ≤ c.toNat && c.toNat ≤ last

/-- The text without white space at its ends. -/
def trim (s : List Char) : List Char :=
  ((s.dropWhile isBlank).reverse.dropWhile isBlank).reverse

/-- A letter of any script. -/
def isLetter (c : Char) : Bool := letters.contains c

/-- A letter or numeral of any script. -/
def isAlphanumeric (c : Char) : Bool := isLetter c || numerals.contains c

/-- A decimal digit of any script. -/
def isDecimalDigit (c : Char) : Bool := decimalDigits.contains c

/-- A character of a word. -/
def isWordChar (c : Char) : Bool := words.contains c

end Lineage.Text
