import Lineage.Json.Basic

/-!
# Printing JSON

Two layouts of a document: compact, without any space, and pretty, with one
item or member to a line and two spaces more to each level. In a string the
quotation mark, the backslash and the control characters below `U+0020` are
escaped, by a letter where there is one, and all else is written as it is.
-/

namespace Lineage.Json

/-- A character inside a printed string. -/
def escape (c : Char) : List Char :=
  if c = '"' then ['\\', '"']
  else if c = '\\' then ['\\', '\\']
  else if c = '\x08' then ['\\', 'b']
  else if c = '\t' then ['\\', 't']
  else if c = '\n' then ['\\', 'n']
  else if c = '\x0c' then ['\\', 'f']
  else if c = '\r' then ['\\', 'r']
  else if c.toNat < 0x20 then
    ['\\', 'u', '0', '0', Nat.digitChar (c.toNat / 16), Nat.digitChar (c.toNat % 16)]
  else [c]

/-- A printed string; one that is no text is printed as a lone surrogate. -/
def quoted : Option String → List Char
  | some s => '"' :: s.toList.flatMap escape ++ ['"']
  | none => ['"', '\\', 'u', 'd', '8', '0', '0', '"']

/-- A printed integer. -/
def digitsOfInt : Int → List Char
  | .ofNat n => Nat.toDigits 10 n
  | .negSucc n => '-' :: Nat.toDigits 10 (n + 1)

/-- A printed number that is no integer: the digits and the exponent of the
    shortest decimal, and a large exponent for what is too large. -/
def digitsOfReal : Option Binary → List Char
  | some x =>
    let d := x.shortest
    (if d.negative then ['-'] else []) ++ Nat.toDigits 10 d.coefficient ++
      'e' :: digitsOfInt d.exponent
  | none => ['1', 'e', '9', '9', '9']

/-! ### The compact layout -/

mutual

/-- A document in the compact layout. -/
def compactChars : Json → List Char
  | null => ['n', 'u', 'l', 'l']
  | bool true => ['t', 'r', 'u', 'e']
  | bool false => ['f', 'a', 'l', 's', 'e']
  | int i => digitsOfInt i
  | real x => digitsOfReal x
  | string s => quoted s
  | array [] => ['[', ']']
  | array (j :: js) => '[' :: compactChars j ++ compactItems js
  | object [] => ['{', '}']
  | object ((key, j) :: ms) => '{' :: quoted key ++ ':' :: compactChars j ++ compactMembers ms

/-- The items after the first, and the closing bracket. -/
def compactItems : List Json → List Char
  | [] => [']']
  | j :: js => ',' :: compactChars j ++ compactItems js

/-- The members after the first, and the closing brace. -/
def compactMembers : List (Option String × Json) → List Char
  | [] => ['}']
  | (key, j) :: ms => ',' :: quoted key ++ ':' :: compactChars j ++ compactMembers ms

end

/-- The compact text of a document. -/
def compact (j : Json) : String := String.ofList (compactChars j)

/-! ### The pretty layout -/

/-- A new line at the given level. -/
def newline (level : Nat) : List Char := '\n' :: List.replicate (2 * level) ' '

mutual

/-- A document in the pretty layout, standing at the given level. -/
def prettyChars (level : Nat) : Json → List Char
  | array (j :: js) =>
    '[' :: newline (level + 1) ++ prettyChars (level + 1) j ++ prettyItems level js
  | object ((key, j) :: ms) =>
    '{' :: newline (level + 1) ++ quoted key ++ ':' :: ' ' :: prettyChars (level + 1) j ++
      prettyMembers level ms
  | null => ['n', 'u', 'l', 'l']
  | bool true => ['t', 'r', 'u', 'e']
  | bool false => ['f', 'a', 'l', 's', 'e']
  | int i => digitsOfInt i
  | real x => digitsOfReal x
  | string s => quoted s
  | array [] => ['[', ']']
  | object [] => ['{', '}']

/-- The items after the first, and the closing bracket on a line of its own. -/
def prettyItems (level : Nat) : List Json → List Char
  | [] => newline level ++ [']']
  | j :: js => ',' :: newline (level + 1) ++ prettyChars (level + 1) j ++ prettyItems level js

/-- The members after the first, and the closing brace on a line of its own. -/
def prettyMembers (level : Nat) : List (Option String × Json) → List Char
  | [] => newline level ++ ['}']
  | (key, j) :: ms =>
    ',' :: newline (level + 1) ++ quoted key ++ ':' :: ' ' :: prettyChars (level + 1) j ++
      prettyMembers level ms

end

/-- The pretty text of a document. -/
def pretty (j : Json) : String := String.ofList (prettyChars 0 j)

end Lineage.Json
