import Lineage.Designator
import Lineage.Json.Word

/-!
# Designators in JSON

A range is an object of its ends, or an array of them; other fields are
skipped. A part is the word `Identity`, or an object whose only key names the
kind of part. A designator is the array of its parts; identities among them are
dropped.
-/

namespace Lineage

namespace Range

/-- The printed form. -/
def toJson (r : Range) : Json := .obj [("start", .int r.start), ("end", .int r.stop)]

/-- The range with the ends that two documents hold. -/
def ofJsonEnds? (start stop : Json) : Option Range := do
  (Range.ofEnds (← start.signed?) (← stop.signed?)).toOption

/-- The range a document holds. -/
def ofJson? : Json → Option Range
  | .array [start, stop] => ofJsonEnds? start stop
  | .object members => do
    if members.all (·.1.isSome) then
      ofJsonEnds? (← Json.field? members "start") (← Json.field? members "end")
    else none
  | _ => none

/-- The range that a text holds. -/
def read (s : String) : Except Error Range := Json.readAs ofJson? s

end Range

namespace Part

/-- The printed form. -/
def toJson : Part → Json
  | identity => .str "Identity"
  | range r => .obj [("Range", r.toJson)]
  | element n => .obj [("NthElement", .nat n)]
  | input n => .obj [("NthInput", .nat n)]
  | output n => .obj [("NthOutput", .nat n)]

/-- The part a document holds. -/
def ofJson? (j : Json) : Option Part :=
  if j.word? = some "Identity" then some identity
  else match j with
    | .object [(some "Range", j)] => (Range.ofJson? j).map range
    | .object [(some "NthElement", j)] => j.unsigned?.map element
    | .object [(some "NthInput", j)] => j.unsigned?.map input
    | .object [(some "NthOutput", j)] => j.unsigned?.map output
    | _ => none

/-- The part that the JSON text `s` holds. -/
def readJson (s : String) : Except Error Part := Json.readAs ofJson? s

end Part

namespace Designator

/-- The printed form. -/
def toJson (d : Designator) : Json := .array (d.parts.map Part.toJson)

/-- The designator a document holds. -/
def ofJson? : Json → Option Designator
  | .array items => (items.mapM Part.ofJson?).map compose
  | _ => none

/-- The designator that the JSON text `s` holds. -/
def readJson (s : String) : Except Error Designator := Json.readAs ofJson? s

end Designator

end Lineage
