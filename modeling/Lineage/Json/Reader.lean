import Lineage.Json.Basic
import Lineage.Json.Number
import Lineage.Text.Hex

/-!
# Reading JSON

The strict grammar: white space is the space, the tab and the two line ends; no
comments, no trailing commas, no leading zeros, no control characters below
`U+0020` in strings, and nothing after the document.

Each reader takes the text and gives what it read with the rest. The readers of
values, items and members call each other, and `fuel` bounds the calls; twice
the length of the text is more than they need (`read`).
-/

namespace Lineage.Json

/-- The white space of JSON. -/
def isSpace (c : Char) : Bool := c = ' ' || c = '\t' || c = '\n' || c = '\r'

/-- The text after leading white space. -/
def skip (s : List Char) : List Char := s.dropWhile isSpace

/-! ### Numbers -/

/-- At least one digit. -/
def digits (s : List Char) : Option (List Char × List Char) :=
  let ds := s.takeWhile Char.isDigit
  if ds.isEmpty then none else some (ds, s.dropWhile Char.isDigit)

/-- The integral part of a number: a zero, or digits that begin with none. -/
def integral : List Char → Option (List Char × List Char)
  | '0' :: r => some (['0'], r)
  | s => digits s

/-- The fraction of a number, if it has one. -/
def fraction : List Char → Option (Option (List Char) × List Char)
  | '.' :: r => (digits r).map fun (ds, r) => (some ds, r)
  | s => some (none, s)

/-- The digits of an exponent after its letter, with their sign. -/
def power : List Char → Option (Int × List Char)
  | '+' :: r => (digits r).map fun (ds, r) => (Decimal.ofDigits ds, r)
  | '-' :: r => (digits r).map fun (ds, r) => (-Decimal.ofDigits ds, r)
  | s => (digits s).map fun (ds, r) => (Decimal.ofDigits ds, r)

/-- The exponent of a number, if it has one. -/
def exponent : List Char → Option (Option Int × List Char)
  | 'e' :: r => (power r).map fun (e, r) => (some e, r)
  | 'E' :: r => (power r).map fun (e, r) => (some e, r)
  | s => some (none, s)

/-- The integer that digits make, unless it is no word. Minus zero is not an
    integer. -/
def word (negative : Bool) (digits : List Char) : Option Int :=
  let magnitude := Decimal.ofDigits digits
  if !negative then (Word.unsigned? magnitude).map fun n => n
  else if magnitude = 0 then none
  else Word.signed? (-magnitude)

/-- A number after its sign. -/
def unsignedNumber (negative : Bool) (s : List Char) : Option (Json × List Char) := do
  let (whole, s) ← integral s
  let (part, s) ← fraction s
  let (power, s) ← exponent s
  match part, power, word negative whole with
  | none, none, some i => some (.int i, s)
  | _, _, _ => some (.real (rounded? negative whole (part.getD []) (power.getD 0)), s)

/-- A number. -/
def number : List Char → Option (Json × List Char)
  | '-' :: r => unsignedNumber true r
  | s => unsignedNumber false s

/-! ### Strings -/

/-- What stands for one or half a character in a string: a surrogate can only
    be escaped, and makes a character together with the one after it. -/
inductive Symbol where
  | char (c : Char)
  | surrogate (unit : Nat)
deriving Repr, DecidableEq

/-- The symbol with the given four hexadecimal digits. -/
def unitSymbol (a b c d : Char) : Option Symbol := do
  let n ← Text.hexNumber? [a, b, c, d]
  some (if 0xD800 ≤ n ∧ n < 0xE000 then .surrogate n else .char (Char.ofNat n))

/-- The character that a letter after a backslash stands for. -/
def escaped (c : Char) : Option Char :=
  if c = '"' ∨ c = '\\' ∨ c = '/' then some c
  else if c = 'b' then some '\x08'
  else if c = 'f' then some '\x0c'
  else if c = 'n' then some '\n'
  else if c = 'r' then some '\r'
  else if c = 't' then some '\t'
  else none

/-- The symbols of a string, from after its opening quotation mark. -/
def symbols : List Char → Option (List Symbol × List Char)
  | [] => none
  | '"' :: r => some ([], r)
  | '\\' :: 'u' :: a :: b :: c :: d :: r => do
    let x ← unitSymbol a b c d
    let (xs, r) ← symbols r
    some (x :: xs, r)
  | '\\' :: e :: r => do
    let c ← escaped e
    let (xs, r) ← symbols r
    some (.char c :: xs, r)
  | c :: r =>
    if c = '\\' || c.toNat < 0x20 then none
    else do
      let (xs, r) ← symbols r
      some (.char c :: xs, r)

/-- The text of symbols, if each surrogate is one of a pair. -/
def join : List Symbol → Option (List Char)
  | [] => some []
  | .char c :: xs => (join xs).map (c :: ·)
  | .surrogate hi :: .surrogate lo :: xs =>
    if hi < 0xDC00 ∧ 0xDC00 ≤ lo then
      (join xs).map (Char.ofNat (0x10000 + (hi - 0xD800) * 0x400 + (lo - 0xDC00)) :: ·)
    else none
  | .surrogate _ :: _ => none

/-- A string, from after its opening quotation mark. -/
def text (s : List Char) : Option (Option String × List Char) :=
  (symbols s).map fun (xs, r) => ((join xs).map String.ofList, r)

/-! ### Documents -/

mutual

/-- A value, after white space. -/
def value : Nat → List Char → Option (Json × List Char)
  | 0, _ => none
  | fuel + 1, s =>
    match skip s with
    | 'n' :: 'u' :: 'l' :: 'l' :: r => some (.null, r)
    | 't' :: 'r' :: 'u' :: 'e' :: r => some (.bool true, r)
    | 'f' :: 'a' :: 'l' :: 's' :: 'e' :: r => some (.bool false, r)
    | '"' :: r => (text r).map fun (s, r) => (.string s, r)
    | '[' :: r =>
      match skip r with
      | ']' :: r => some (.array [], r)
      | r => (items fuel r).map fun (js, r) => (.array js, r)
    | '{' :: r =>
      match skip r with
      | '}' :: r => some (.object [], r)
      | r => (members fuel r).map fun (ms, r) => (.object ms, r)
    | r => number r

/-- At least one item, and the closing bracket. -/
def items : Nat → List Char → Option (List Json × List Char)
  | 0, _ => none
  | fuel + 1, s => do
    let (j, r) ← value fuel s
    match skip r with
    | ',' :: r => do
      let (js, r) ← items fuel r
      some (j :: js, r)
    | ']' :: r => some ([j], r)
    | _ => none

/-- At least one member, and the closing brace. -/
def members : Nat → List Char → Option (List (Option String × Json) × List Char)
  | 0, _ => none
  | fuel + 1, s =>
    match skip s with
    | '"' :: r => do
      let (key, r) ← text r
      match skip r with
      | ':' :: r => do
        let (j, r) ← value fuel r
        match skip r with
        | ',' :: r => do
          let (ms, r) ← members fuel r
          some ((key, j) :: ms, r)
        | '}' :: r => some ([(key, j)], r)
        | _ => none
      | _ => none
    | _ => none

end

/-- The document that a text holds, with nothing but white space around it. -/
def read (s : String) : Option Json := do
  let cs := s.toList
  let (j, r) ← value (2 * cs.length + 2) cs
  if (skip r).isEmpty then some j else none

end Lineage.Json
