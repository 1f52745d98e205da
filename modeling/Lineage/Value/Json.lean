import Lineage.Json.Word

/-!
# Values in JSON

A value is an object whose only key names the kind: `{"Int": 5}`.
-/

namespace Lineage.Value

mutual

/-- The printed form. -/
def toJson : Value → Json
  | bool b => .obj [("Bool", .bool b)]
  | int i => .obj [("Int", .int i)]
  | str s => .obj [("Str", .str s)]
  | list items => .obj [("List", .array (toJsons items))]

/-- The printed forms of several values. -/
def toJsons : List Value → List Json
  | [] => []
  | v :: vs => toJson v :: toJsons vs

end

theorem toJsons_eq_map : ∀ vs : List Value, toJsons vs = vs.map toJson
  | [] => by simp [toJsons]
  | v :: vs => by simp [toJsons, toJsons_eq_map vs]

mutual

/-- The value a document holds; its integers are words. -/
def ofJson? : Json → Option Value
  | .object [(some key, .array items)] =>
    if key = "List" then (ofJsons? items).map .list else none
  | .object [(some key, .bool b)] => if key = "Bool" then some (.bool b) else none
  | .object [(some key, .int i)] =>
    if key = "Int" then (Word.signed? i).map .int else none
  | .object [(some key, .string (some s))] => if key = "Str" then some (.str s) else none
  | _ => none

/-- The values several documents hold. -/
def ofJsons? : List Json → Option (List Value)
  | [] => some []
  | j :: js => do
    let v ← ofJson? j
    let vs ← ofJsons? js
    some (v :: vs)

end

/-- The value that a text holds. -/
def read (s : String) : Except Error Value :=
  Json.readAs (fun j => if j.depth ≤ Json.maxDepth then ofJson? j else none) s

end Lineage.Value
