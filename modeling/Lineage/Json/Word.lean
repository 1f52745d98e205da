import Lineage.Error
import Lineage.Json.Printer
import Lineage.Json.Reader

/-!
# Reading from JSON

What the printed forms of the library have in common: a document is read
strictly, a choice among words may stand alone or be the key of an object, and
the fields of an object are found by their keys, none of them repeated.
-/

namespace Lineage.Json

/-- A word that stands alone, or is the only key of an object that holds
    nothing. -/
def word? : Json → Option String
  | string s => s
  | object [(key, null)] => key
  | _ => none

/-- The value of the field with the given key, which is not repeated. -/
def field? (members : List (Option String × Json)) (key : String) : Option Json :=
  match members.filter (·.1 = some key) with
  | [(_, j)] => some j
  | _ => none

def text? : Json → Option String
  | string s => s
  | _ => none

/-- A number that is a signed word. -/
def signed? : Json → Option Int
  | int i => Word.signed? i
  | _ => none

/-- A number that is an unsigned word. -/
def unsigned? : Json → Option Nat
  | int (.ofNat n) => Word.unsigned? n
  | _ => none

/-- What a text holds, read by `decode`. -/
def readAs {α : Type} (decode : Json → Option α) (s : String) : Except Error α :=
  match (Json.read s).bind decode with
  | some a => .ok a
  | none => .error (.read .json)

end Lineage.Json
