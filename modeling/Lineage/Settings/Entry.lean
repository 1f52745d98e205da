import Lineage.Decimal.Binary
import Lineage.Json.Basic
import Lineage.Settings.Path

/-!
# Entries of configurations

What a source of settings may hold, whatever it is written in. A scalar of one
kind may stand for one of another: a number for its text, or a text for a
number.
-/

namespace Lineage

/-- What a configuration holds under a key. -/
inductive Entry where
  | null
  | bool (b : Bool)
  | int (i : Int)
  | real (x : Binary)
  | infinite (negative : Bool)
  | notANumber
  | text (s : String)
  | list (items : List Entry)
  | table (fields : List (String × Entry))
deriving Repr, Inhabited

namespace Entry

/-! ### Views -/

/-- A number in plain digits, maybe after a plus sign. -/
def natOfText? (s : String) : Option Nat :=
  let digits := match s.toList with
    | '+' :: digits => digits
    | digits => digits
  if digits.isEmpty || !digits.all Char.isDigit then none
  else Word.unsigned? (Decimal.ofDigits digits)

/-- The entry as an unsigned word. Truth values and the words for them count as
    one and zero, and fractions are rounded and limited to words. -/
def asNat? : Entry → Option Nat
  | bool b => some (if b then 1 else 0)
  | int (.ofNat n) => Word.unsigned? n
  | real x => some (min x.roundToNat Word.greatest)
  | infinite negative => some (if negative then 0 else Word.greatest)
  | notANumber => some 0
  | text s =>
    match s.toLower with
    | "true" | "on" | "yes" => some 1
    | "false" | "off" | "no" => some 0
    | _ => natOfText? s
  | _ => none

/-- The entry as a text, if it is a scalar. -/
def asText? : Entry → Option String
  | bool b => some (if b then "true" else "false")
  | int i => some (toString i)
  | real x => some x.shortest.positional
  | infinite negative => some (if negative then "-inf" else "inf")
  | notANumber => some "NaN"
  | text s => some s
  | _ => none

/-- The word among several that the entry stands for: a text, or a table with
    the word for its only key. -/
def asWord? : Entry → Option String
  | text s => some s
  | table [(key, _)] => some key
  | _ => none

/-! ### Fields -/

/-- The fields of a table; anything else has none. -/
def fields : Entry → List (String × Entry)
  | table fields => fields
  | _ => []

/-- The entry under a key. -/
def get? (e : Entry) (key : String) : Option Entry := e.fields.lookup key

/-- Fields with one more, in place of the one with the same key if there is
    one. -/
def putField {α : Type} (key : String) (value : α) : List (String × α) → List (String × α)
  | [] => [(key, value)]
  | (k, v) :: fields =>
    if k = key then (key, value) :: fields else (k, v) :: putField key value fields

mutual

/-- The table with `incoming` under a key: a table is merged field by field with
    what is there, and anything else takes its place. What is no table gives way
    to one. -/
def merge (e : Entry) (key : String) : Entry → Entry
  | table incoming =>
    let present := (e.get? key).getD (table [])
    table (putField key (mergeFields present incoming) e.fields)
  | incoming => table (putField key incoming e.fields)

/-- An entry with fields merged into it one by one. -/
def mergeFields (e : Entry) : List (String × Entry) → Entry
  | [] => e
  | (key, incoming) :: fields => mergeFields (merge e key incoming) fields

end

/-! ### Paths -/

/-- What holds `value` at the end of a path, and otherwise what `e` holds. Of a
    list only that it is one matters. -/
def putAt (value : Entry) : List Path.Step → Entry → Entry
  | [], _ => value
  | [.key name], e => merge e name value
  | .key name :: steps, e =>
    table (putField name (putAt value steps ((e.get? name).getD (table []))) e.fields)
  | .item _ :: _, _ => list []

/-- The configuration with `value` under a key, which may be a path. -/
def put (e : Entry) (key : String) (value : Entry) : Entry :=
  match Path.read? key with
  | some path => putAt value (.key path.name :: path.steps) e
  | none => merge e key value

/-! ### From JSON -/

/-- The fields with the last of those that share a key. -/
def lastFields (fields : List (String × Entry)) : List (String × Entry) :=
  fields.foldl (fun known (key, e) => putField key e known) []

mutual

/-- The entry that a document is, if its numbers and strings are in order. -/
def ofJson? : Json → Option Entry
  | .null => some null
  | .bool b => some (.bool b)
  | .int i => some (.int i)
  | .real x => x.map real
  | .string s => s.map text
  | .array items => (ofJsons? items).map list
  | .object members => (ofMembers? members).map fun fields => table (lastFields fields)

/-- The entries that several documents are. -/
def ofJsons? : List Json → Option (List Entry)
  | [] => some []
  | j :: js => do
    let e ← ofJson? j
    let es ← ofJsons? js
    some (e :: es)

/-- The fields that members are. -/
def ofMembers? : List (Option String × Json) → Option (List (String × Entry))
  | [] => some []
  | (key, j) :: ms => do
    let key ← key
    let e ← ofJson? j
    let fields ← ofMembers? ms
    some ((key, e) :: fields)

end

end Entry

end Lineage
