import Lineage.Function.Basic
import Lineage.Json.Word

/-!
# Printed functions

A function is printed as what describes it: an object whose field `function`
names the kind of function, followed by the fields of that kind. It may be read
back from an array of the same in order, too; fields that are not known are
skipped, and the names of kinds inside a template may be their numbers.

Only what describes a function is printed, never what it did: a function read
back has not been evaluated.
-/

namespace Lineage

/-- The word for an operator. -/
def Operator.text : Operator → String
  | add => "add"
  | and => "and"
  | or => "or"
  | concat => "concat"

/-- The operators. -/
def Operator.all : List Operator := [add, and, or, concat]

/-- The word for a quantifier. -/
def Quantifier.text : Quantifier → String
  | forAll => "for_all"
  | forSome => "exists"

/-- The quantifiers. -/
def Quantifier.all : List Quantifier := [forAll, forSome]

/-- What describes a function. -/
def Function.spec : Function → Spec
  | nary op arity => .nary op arity
  | quantifier q => .quantifier q
  | find pattern => .regexFind pattern.source
  | fork arity => .fork arity
  | applyToAll template => .applyToAll template.spec
  | foreign f => f.spec

namespace Spec

/-- The function that is described. -/
def build [Pattern.Engine] : Spec → Except Error Function
  | regexFind pattern => return .find (← Pattern.read pattern)
  | quantifier q => return .quantifier q
  | nary op arity => return .nary op arity
  | fork arity => return .fork arity
  | applyToAll template => do Function.overElements (← template.build)

/-- The printed form. -/
def toJson : Spec → Json
  | regexFind pattern => .obj [("function", .str "regex_find"), ("pattern", .str pattern)]
  | quantifier q => .obj [("function", .str "quantifier"), ("kind", .str q.text)]
  | nary op arity =>
    .obj [("function", .str "nary"), ("op", .str op.text), ("arity", .nat arity)]
  | fork arity => .obj [("function", .str "fork"), ("arity", .nat arity)]
  | applyToAll template =>
    .obj [("function", .str "apply_to_all"), ("template", template.toJson)]

/-! ### Reading -/

/-- The kinds of function, in the order of their numbers. -/
inductive Tag where
  | regexFind
  | quantifier
  | nary
  | fork
  | applyToAll
deriving Repr, DecidableEq

namespace Tag

/-- The kinds of function, in the order of their numbers. -/
def all : List Tag := [regexFind, quantifier, nary, fork, applyToAll]

/-- The word for a kind of function. -/
def text : Tag → String
  | regexFind => "regex_find"
  | quantifier => "quantifier"
  | nary => "nary"
  | fork => "fork"
  | applyToAll => "apply_to_all"

/-- The keys of the fields, in order. -/
def fields : Tag → List String
  | regexFind => ["pattern"]
  | quantifier => ["kind"]
  | nary => ["op", "arity"]
  | fork => ["arity"]
  | applyToAll => ["template"]

/-- The kind a document names; inside a template, maybe by its number. -/
def ofJson? (nested : Bool) : Json → Option Tag
  | .string (some s) => all.find? (·.text = s)
  | .int (.ofNat n) => if nested then all[n]? else none
  | _ => none

end Tag

/-- A word among those of a description, which may be the only key of an object
    that holds an empty one. -/
def wordOf? : Json → Option String
  | .object [(key, .object [])] => key
  | j => j.word?

/-- The kind of function and its fields, in order, from an array or an
    object. -/
def fields? (nested : Bool) : Json → Option (Tag × List Json)
  | .array (tag :: items) => do
    let tag ← Tag.ofJson? nested tag
    if items.length = tag.fields.length then some (tag, items) else none
  | .object members => do
    let tag ← Tag.ofJson? nested (← Json.field? members "function")
    some (tag, ← tag.fields.mapM (Json.field? members))
  | _ => none

/-- The description a document holds. Templates nest no deeper than the
    document does, which bounds `fuel`. -/
def decode : Nat → Bool → Json → Option Spec
  | 0, _, _ => none
  | fuel + 1, nested, j => do
    match (← fields? nested j) with
    | (.regexFind, [pattern]) => return regexFind (← pattern.text?)
    | (.quantifier, [kind]) =>
      let word ← wordOf? kind
      return quantifier (← Quantifier.all.find? (·.text = word))
    | (.nary, [op, arity]) =>
      let word ← wordOf? op
      return nary (← Operator.all.find? (·.text = word)) (← arity.unsigned?)
    | (.fork, [arity]) => return fork (← arity.unsigned?)
    | (.applyToAll, [template]) => return applyToAll (← decode fuel true template)
    | _ => none

/-- The description a document holds. -/
def ofJson? (j : Json) : Option Spec :=
  if j.isStrict then decode (j.depth + 1) false j else none

/-- The description that a text holds. -/
def read (s : String) : Except Error Spec := Json.readAs ofJson? s

end Spec

namespace Function

/-- The printed form. -/
def print (f : Function) : String := f.spec.toJson.compact

/-- An error in building a function, as one in reading it. -/
def unbuilt : Error → Error
  | .read fault => .read fault
  | e => .read (.unbuildable e.message)

/-- The function that a text holds. Whatever prevents it is an error in
    reading. -/
def read [Pattern.Engine] (s : String) : Except Error Function := do
  let spec ← Spec.read s
  match spec.build with
  | .ok f => .ok f
  | .error e => .error (unbuilt e)

end Function

end Lineage
