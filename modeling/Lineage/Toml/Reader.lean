import Lineage.Toml.Date
import Lineage.Toml.Number
import Lineage.Toml.Table
import Lineage.Toml.Text

/-!
# Reading TOML

A document is a sequence of lines: headers, which begin a table, and keys with
their values. Only strings, arrays and tables between braces may go on over
several lines.

Each reader takes the text and gives what it read with the rest. The readers of
values, items and fields call each other, and `fuel` bounds the calls; twice the
length of the text is more than they need (`read`).
-/

namespace Lineage.Toml

/-! ### Values -/

/-- A character of a number, a date or a word. -/
def isScalarChar (c : Char) : Bool :=
  c.isAlphanum || c = '_' || c = '+' || c = '-' || c = '.' || c = ':'

/-- The text of a number, a date or a word. A blank may stand between a date and
    a time. -/
def scalarText (s : List Char) : List Char × List Char :=
  let text := s.takeWhile isScalarChar
  match date? text, s.dropWhile isScalarChar with
  | some (_, []), ' ' :: c :: s =>
    if c.isDigit then
      (text ++ ' ' :: (c :: s).takeWhile isScalarChar, (c :: s).dropWhile isScalarChar)
    else (text, ' ' :: c :: s)
  | _, s => (text, s)

/-- A number, a date or a truth value. -/
def scalar? (s : List Char) : Option (Entry × List Char) :=
  let (text, s) := scalarText s
  if text = ['t', 'r', 'u', 'e'] then some (.bool true, s)
  else if text = ['f', 'a', 'l', 's', 'e'] then some (.bool false, s)
  else
    match number? text with
    | some e => some (e, s)
    | none => (dateTime? text).map fun text => (.text (.ofList text), s)

mutual

/-- A value, in which arrays and tables may nest to the depth `room`. -/
def value? : Nat → Nat → List Char → Option (Entry × List Char)
  | 0, _, _ => none
  | fuel + 1, room, s =>
    match s, room with
    | '"' :: _, _ => (string? s).map fun (text, s) => (.text text, s)
    | '\'' :: _, _ => (string? s).map fun (text, s) => (.text text, s)
    | '[' :: s, room + 1 => (items? fuel room (skipLines false s)).map fun (es, s) => (.list es, s)
    | '{' :: s, room + 1 => do
      let (t, s) ← fields? fuel room (skipLines false s) []
      return (← t.toEntry?, s)
    | s, _ => scalar? s

/-- The items of an array, and the closing bracket; a comma may stand before
    it. -/
def items? : Nat → Nat → List Char → Option (List Entry × List Char)
  | 0, _, _ => none
  | fuel + 1, room, s =>
    match s with
    | ']' :: s => some ([], s)
    | s => do
      let (e, s) ← value? fuel room s
      match skipLines false s with
      | ',' :: s => do
        let (es, s) ← items? fuel room (skipLines false s)
        return (e :: es, s)
      | ']' :: s => return ([e], s)
      | _ => none

/-- A table with the fields that follow, and the closing brace; a comma may stand
    before it. -/
def fields? : Nat → Nat → List Char → Section → Option (Section × List Char)
  | 0, _, _, _ => none
  | fuel + 1, room, s, t =>
    match s with
    | '\x7d' :: s => some (t, s)
    | s => do
      let (path, s) ← path? s
      match skipLines false s with
      | '=' :: s => do
        let (e, s) ← value? fuel room (skipLines false s)
        let t ← t.assign e path
        match skipLines false s with
        | ',' :: s => fields? fuel room (skipLines false s) t
        | '\x7d' :: s => return (t, s)
        | _ => none
      | _ => none

end

/-! ### Documents -/

/-- A document that has been read up to some line. -/
structure Draft where
  root : Section
  /-- The path of the last header. -/
  header : List String
deriving Repr

namespace Draft

/-- Nothing read. -/
def empty : Draft := ⟨[], []⟩

/-- Begins a table by `start`, which is given its key. -/
def openAt (start : String → Change) (path : List String) (d : Draft) : Option Draft := do
  let key ← path.getLast?
  return ⟨← Section.descend (start key) path.dropLast d.root, path⟩

/-- Adds a value to the table of the last header. -/
def assign (path : List String) (e : Entry) (d : Draft) : Option Draft := do
  return { d with root := ← Section.descend (Section.assign e path) d.header d.root }

end Draft

/-- The document after the line that a text begins with, and the text after that
    line. A value takes no more calls than `fuel`. -/
def line? (fuel : Nat) (d : Draft) (s : List Char) : Option (Draft × List Char) :=
  match skipBlanks s with
  | '[' :: '[' :: s => do
    let (path, s) ← path? s
    match s with
    | ']' :: ']' :: s => return (← d.openAt Section.openItem path, ← finishLine? s)
    | _ => none
  | '[' :: s => do
    let (path, s) ← path? s
    match s with
    | ']' :: s => return (← d.openAt Section.openTable path, ← finishLine? s)
    | _ => none
  | s =>
    match finishLine? s with
    | some s => some (d, s)
    | none => do
      let (path, s) ← path? s
      match s with
      | '=' :: s => do
        let (e, s) ← value? fuel maxNesting (skipBlanks s)
        return (← d.assign path e, ← finishLine? s)
      | _ => none

/-- The document after all lines, of which there are at most `count`. -/
def lines? (fuel : Nat) : Nat → Draft → List Char → Option Draft
  | 0, _, _ => none
  | count + 1, d, s =>
    if s.isEmpty then some d
    else do
      let (d, s) ← line? fuel d s
      lines? fuel count d s

/-- The table that a text holds. -/
def read (s : String) : Option Entry :=
  let cs := s.toList
  (lines? (2 * cs.length + 2) (cs.length + 1) .empty cs).bind fun d => d.root.toEntry?

end Lineage.Toml
