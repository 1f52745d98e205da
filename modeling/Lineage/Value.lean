/-!
# Values

What functions take and return: truth values, integers, strings, and lists of
values, nested and mixed at will.
-/

namespace Lineage

/-- A structured value. -/
inductive Value where
  | bool (b : Bool)
  | int (i : Int)
  | str (s : String)
  | list (items : List Value)
deriving Repr

/-- The four kinds of value. -/
inductive Kind where
  | bool
  | int
  | string
  | list
deriving Repr, DecidableEq

/-- The word for a kind. -/
def Kind.text : Kind → String
  | bool => "bool"
  | int => "int"
  | string => "string"
  | list => "list"

namespace Value

mutual

/-- Equality of values is decided kind by kind. -/
def decEq : (v w : Value) → Decidable (v = w)
  | bool a, bool b => decidable_of_iff (a = b) (by simp)
  | int a, int b => decidable_of_iff (a = b) (by simp)
  | str a, str b => decidable_of_iff (a = b) (by simp)
  | list vs, list ws => have := decEqList vs ws; decidable_of_iff (vs = ws) (by simp)
  | bool _, int _ | bool _, str _ | bool _, list _ => isFalse nofun
  | int _, bool _ | int _, str _ | int _, list _ => isFalse nofun
  | str _, bool _ | str _, int _ | str _, list _ => isFalse nofun
  | list _, bool _ | list _, int _ | list _, str _ => isFalse nofun

/-- Equality of lists of values is decided item by item. -/
def decEqList : (vs ws : List Value) → Decidable (vs = ws)
  | [], [] => isTrue rfl
  | v :: vs, w :: ws =>
    have := decEq v w
    have := decEqList vs ws
    decidable_of_iff (v = w ∧ vs = ws) (by simp)
  | [], _ :: _ | _ :: _, [] => isFalse nofun

end

instance : DecidableEq Value := decEq

def kind : Value → Kind
  | bool _ => .bool
  | int _ => .int
  | str _ => .string
  | list _ => .list

def asBool? : Value → Option Bool
  | bool b => some b
  | _ => none

def asInt? : Value → Option Int
  | int i => some i
  | _ => none

def asStr? : Value → Option String
  | str s => some s
  | _ => none

def asList? : Value → Option (List Value)
  | list items => some items
  | _ => none

/-- The truth a value stands for: anything but a truth value counts as false. -/
def truth (v : Value) : Bool := v.asBool?.getD false

mutual

/-- The displayed form: strings between plain quotes, lists between brackets. -/
def text : Value → String
  | bool b => if b then "true" else "false"
  | int i => toString i
  | str s => "\"" ++ s ++ "\""
  | list items => "[" ++ String.intercalate "," (texts items) ++ "]"

/-- The displayed forms of several values. -/
def texts : List Value → List String
  | [] => []
  | v :: vs => text v :: texts vs

end

theorem texts_eq_map : ∀ vs : List Value, texts vs = vs.map text
  | [] => by simp [texts]
  | v :: vs => by simp [texts, texts_eq_map vs]

end Value

end Lineage
