import Lineage.Settings.Entry
import Lineage.Toml.Date

/-!
# Tables of TOML

A table may be written in several places of a document: under its header, under
the headers of tables inside it, and by keys that are paths. But each of its keys
has one value, no table has two headers, and no path goes through a table with a
header of its own. What has been written of a table is a `Section`.
-/

namespace Lineage.Toml

/-- How a table has come to be. -/
inductive Origin where
  /-- By a header of a table inside it. -/
  | outer
  /-- By its own header. -/
  | header
  /-- By a key that is a path. -/
  | path
deriving Repr, DecidableEq

/-- What stands under a key while a document is being read. -/
inductive Item where
  | value (e : Entry)
  | table (origin : Origin) (fields : List (String × Item))
  /-- The tables of an array, of which `last` is still being written. -/
  | tables (earlier : List (List (String × Item))) (last : List (String × Item))
deriving Repr, Inhabited

/-- The keys of a table with what stands under them. -/
abbrev Section := List (String × Item)

/-- A table, and an operation on a table in it. -/
abbrev Change := Section → Option Section

namespace Section

/-- Changes the table at the end of a path of headers. Tables that are not there
    are made, and of an array the last table counts. -/
def descend (change : Change) : List String → Change
  | [], t => change t
  | key :: path, t => do
    let item ← match t.lookup key with
      | none => (descend change path []).map (.table .outer)
      | some (.table origin fields) => (descend change path fields).map (.table origin)
      | some (.tables earlier last) => (descend change path last).map (.tables earlier)
      | some (.value _) => none
    return Entry.putField key item t

/-- Begins the table with a header. -/
def openTable (key : String) : Change := fun t =>
  match t.lookup key with
  | none => some (Entry.putField key (.table .header []) t)
  | some (.table .outer fields) => some (Entry.putField key (.table .header fields) t)
  | _ => none

/-- Begins one more table of an array. -/
def openItem (key : String) : Change := fun t =>
  match t.lookup key with
  | none => some (Entry.putField key (.tables [] []) t)
  | some (.tables earlier last) =>
    some (Entry.putField key (.tables (earlier ++ [last]) []) t)
  | _ => none

/-- Adds a value under a path. No table on the way has a header of its own,
    except that of an array the last table counts; but a value is not added to
    that table itself. -/
def assign (e : Entry) : List String → Change
  | [], _ => none
  | [key], t => if (t.lookup key).isSome then none else some (Entry.putField key (.value e) t)
  | key :: path, t => do
    let item ← match t.lookup key with
      | none => (assign e path []).map (.table .path)
      | some (.table .header _) => none
      | some (.table origin fields) => (assign e path fields).map (.table origin)
      | some (.tables earlier last) =>
        if path.length = 1 then none else (assign e path last).map (.tables earlier)
      | some (.value _) => none
    return Entry.putField key item t

end Section

/-! ### As entries -/

/-- A table with this key, which is the first of its keys in order, stands for a
    date. -/
def dateKey : String := "$__toml_private_datetime"

/-- What a table with the given fields is: a table, or the date under
    `dateKey`. -/
def tableOf? (fields : List (String × Entry)) : Option Entry :=
  match fields.lookup dateKey with
  | some e =>
    if fields.any fun (key, _) => key < dateKey then some (.table fields)
    else match e with
      | .text s => (dateTime? s.toList).map (.text ∘ .ofList)
      | _ => none
  | none => some (.table fields)

mutual

/-- The entry that stands under a key. -/
def Item.toEntry? : Item → Option Entry
  | .value e => some e
  | .table _ fields => (entries? fields).bind tableOf?
  | .tables earlier last => do
    let tables ← tableEntries? earlier
    let fields ← entries? last
    return .list (tables ++ [← tableOf? fields])

/-- The fields of a table. -/
def entries? : List (String × Item) → Option (List (String × Entry))
  | [] => some []
  | (key, item) :: fields => do
    let e ← item.toEntry?
    return (key, e) :: (← entries? fields)

/-- The tables of an array. -/
def tableEntries? : List (List (String × Item)) → Option (List Entry)
  | [] => some []
  | fields :: tables => do
    let fields ← entries? fields
    let e ← tableOf? fields
    return e :: (← tableEntries? tables)

end

/-- The entry that a table is. -/
def Section.toEntry? (t : Section) : Option Entry := (entries? t).bind tableOf?

end Lineage.Toml
