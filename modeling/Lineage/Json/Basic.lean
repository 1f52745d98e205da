import Lineage.Decimal.Binary

/-!
# JSON documents

A document is kept as it is written as far as readers tell the difference: the
members of an object stand in their order, repeated ones included, and a number
with a fraction or an exponent is not an integer, even if its value is one.
-/

namespace Lineage

/-- A JSON document. -/
inductive Json where
  | null
  | bool (b : Bool)
  /-- A number without fraction and exponent that is a word. -/
  | int (i : Int)
  /-- Any other number, as it is rounded; `none` is one that is too large. -/
  | real (x : Option Binary)
  /-- A string; `none` is one that escapes half of a surrogate pair alone,
      which is not Unicode text. -/
  | string (s : Option String)
  | array (items : List Json)
  | object (members : List (Option String × Json))
deriving Repr, Inhabited

namespace Json

/-- The string holding the text `s`. -/
def str (s : String) : Json := .string (some s)

/-- The natural number `n`. -/
def nat (n : Nat) : Json := .int n

/-- The object with the given members, in order. -/
def obj (members : List (String × Json)) : Json :=
  .object (members.map fun (key, j) => (some key, j))

/-- The member of an object with the given key; of several, the last. -/
def get? (j : Json) (key : String) : Option Json :=
  match j with
  | object members => (members.reverse.find? (·.1 = some key)).map (·.2)
  | _ => none

/-! ### Nesting -/

mutual

/-- How deeply arrays and objects nest. -/
def depth : Json → Nat
  | array items => depthOfItems items + 1
  | object members => depthOfMembers members + 1
  | _ => 0

/-- The greatest depth among items. -/
def depthOfItems : List Json → Nat
  | [] => 0
  | j :: js => max (depth j) (depthOfItems js)

/-- The greatest depth among members. -/
def depthOfMembers : List (Option String × Json) → Nat
  | [] => 0
  | (_, j) :: ms => max (depth j) (depthOfMembers ms)

end

/-- Arrays and objects may nest this deeply in a printed form. -/
def maxDepth : Nat := 127

/-! ### Contents -/

mutual

/-- Every string and key is Unicode text, and every number is in range. -/
def isRegular : Json → Bool
  | real x => x.isSome
  | string s => s.isSome
  | array items => itemsRegular items
  | object members => membersRegular members
  | _ => true

/-- `isRegular`, for every item. -/
def itemsRegular : List Json → Bool
  | [] => true
  | j :: js => isRegular j && itemsRegular js

/-- `isRegular`, for every member and its key. -/
def membersRegular : List (Option String × Json) → Bool
  | [] => true
  | (key, j) :: ms => key.isSome && isRegular j && membersRegular ms

end

/-- The document is read in full: regular, and not nested too deeply. -/
def isStrict (j : Json) : Bool := j.isRegular && decide (j.depth ≤ maxDepth)

end Json

end Lineage
