import Lineage.Text.Hex
import Lineage.Toml.Line

/-!
# Strings and keys in TOML

A string is *basic*, between quotation marks and with escapes, or *literal*,
between apostrophes and without. Either is written in one line, or on several
lines between three marks of its kind. A key is bare or a string of one line, and
keys joined by dots are a path.

Each reader takes the text and gives what it read with the rest.
-/

namespace Lineage.Toml

/-- The character that a letter after a backslash stands for. -/
def escaped? (c : Char) : Option Char :=
  if c = '"' ∨ c = '\\' then some c
  else if c = 'b' then some '\x08'
  else if c = 'f' then some '\x0c'
  else if c = 'n' then some '\n'
  else if c = 'r' then some '\r'
  else if c = 't' then some '\t'
  else if c = 'e' then some '\x1b'
  else none

/-- The character with the given code point in hexadecimal. -/
def coded? (digits : List Char) : Option Char :=
  (Text.hexNumber? digits).bind Text.charOfCode?

/-- What one more character makes of a string. -/
def extend (c : Option Char) (string : Option (List Char × List Char)) :
    Option (List Char × List Char) := do
  let (cs, s) ← string
  return ((← c) :: cs, s)

/-- What follows three marks that end a string: up to two more still belong to
    it. -/
def close (mark : Char) (s : List Char) : List Char × List Char :=
  match s with
  | a :: b :: r =>
    if a = mark ∧ b = mark then ([mark, mark], r)
    else if a = mark then ([mark], b :: r)
    else ([], s)
  | [a] => if a = mark then ([mark], []) else ([], s)
  | [] => ([], [])

/-- A literal string, from after its opening mark. -/
def literal (lines : Bool) : List Char → Option (List Char × List Char)
  | [] => none
  | '\'' :: s =>
    if !lines then some ([], s)
    else match s with
      | '\'' :: '\'' :: s => some (close '\'' s)
      | s => extend '\'' (literal lines s)
  | '\r' :: '\n' :: s =>
    if lines then extend '\r' (extend '\n' (literal lines s)) else none
  | c :: s => if isPlain c || lines && c = '\n' then extend c (literal lines s) else none

/-- A basic string, from after its opening mark. After a backslash at the end of
    a line all white space up to the next character is skipped, which is what
    `skipping` is for. -/
def basic (lines skipping : Bool) : List Char → Option (List Char × List Char)
  | [] => none
  | '"' :: s =>
    if !lines then some ([], s)
    else match s with
      | '"' :: '"' :: s => some (close '"' s)
      | s => extend '"' (basic lines false s)
  | '\\' :: 'x' :: a :: b :: s => extend (coded? [a, b]) (basic lines false s)
  | '\\' :: 'u' :: a :: b :: c :: d :: s =>
    extend (coded? [a, b, c, d]) (basic lines false s)
  | '\\' :: 'U' :: a :: b :: c :: d :: e :: f :: g :: h :: s =>
    extend (coded? [a, b, c, d, e, f, g, h]) (basic lines false s)
  | '\\' :: c :: s =>
    if lines && (lineEnd? (skipBlanks (c :: s))).isSome then basic lines true (c :: s)
    else extend (escaped? c) (basic lines false s)
  | '\r' :: '\n' :: s =>
    if !lines then none
    else if skipping then basic lines true s
    else extend '\r' (extend '\n' (basic lines false s))
  | c :: s =>
    if skipping && (Path.isBlank c || c = '\n') then basic lines true s
    else if c ≠ '\\' && isPlain c || lines && c = '\n' then extend c (basic lines false s)
    else none

/-- The text after a line end at the start of a string of several lines, which
    does not belong to it. -/
def opening (s : List Char) : List Char := (lineEnd? s).getD s

/-- A string of either kind. -/
def string? : List Char → Option (String × List Char)
  | '"' :: '"' :: '"' :: s => (basic true false (opening s)).map fun (cs, s) => (.ofList cs, s)
  | '\'' :: '\'' :: '\'' :: s => (literal true (opening s)).map fun (cs, s) => (.ofList cs, s)
  | '"' :: s => (basic false false s).map fun (cs, s) => (.ofList cs, s)
  | '\'' :: s => (literal false s).map fun (cs, s) => (.ofList cs, s)
  | _ => none

/-- A key. -/
def key? : List Char → Option (String × List Char)
  | '"' :: s => (basic false false s).map fun (cs, s) => (.ofList cs, s)
  | '\'' :: s => (literal false s).map fun (cs, s) => (.ofList cs, s)
  | s =>
    let name := s.takeWhile Path.isNameChar
    if name.isEmpty then none else some (.ofList name, s.dropWhile Path.isNameChar)

/-- The keys of a path, with blanks around each. There are no more than `fuel`
    of them. -/
def keys? : Nat → List Char → Option (List String × List Char)
  | 0, _ => none
  | fuel + 1, s => do
    let (key, s) ← key? (skipBlanks s)
    match skipBlanks s with
    | '.' :: s => do
      let (keys, s) ← keys? fuel s
      return (key :: keys, s)
    | s => return ([key], s)

/-- Values nest no more deeply than this, and a path has no more keys. -/
def maxNesting : Nat := 80

/-- A path: at least one key. -/
def path? (s : List Char) : Option (List String × List Char) := do
  let (keys, s) ← keys? s.length s
  if keys.length ≤ maxNesting then return (keys, s) else none

end Lineage.Toml
