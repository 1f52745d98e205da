import Lineage.Settings.Path

/-!
# Lines of TOML

What stands between the parts of a TOML document: blanks within a line, a
comment at its end, and the line ends, of which there are two.
-/

namespace Lineage.Toml

/-- Not a control character, or the tab. -/
def isPlain (c : Char) : Bool := c = '\t' || (' ' ≤ c && c ≠ '\x7f')

/-- The text after blanks. -/
def skipBlanks (s : List Char) : List Char := s.dropWhile Path.isBlank

/-- The text after a line end. -/
def lineEnd? : List Char → Option (List Char)
  | '\n' :: s => some s
  | '\r' :: '\n' :: s => some s
  | _ => none

/-- The text after the rest of a line that holds nothing but blanks and maybe a
    comment. -/
def finishLine? (s : List Char) : Option (List Char) :=
  let s := match skipBlanks s with
    | '#' :: s => s.dropWhile isPlain
    | s => s
  if s.isEmpty then some [] else lineEnd? s

/-- The text after blanks, line ends and comments, from inside a comment if
    `comment`. -/
def skipLines (comment : Bool) : List Char → List Char
  | [] => []
  | '\n' :: s => skipLines false s
  | '\r' :: '\n' :: s => skipLines false s
  | c :: s =>
    if comment && isPlain c || Path.isBlank c then skipLines comment s
    else if !comment && c = '#' then skipLines true s
    else c :: s

end Lineage.Toml
