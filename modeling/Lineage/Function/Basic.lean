import Lineage.Pattern
import Lineage.Witness

/-!
# Functions

A function takes values at its input pins and returns values at its output
pins; an evaluation also leaves a witness. There are

* operators of any number of inputs: sums, conjunctions, disjunctions and
  concatenations;
* quantifiers over a list of truth values;
* the first match of a pattern in a string;
* forks, which copy their input to each output;
* templates applied to each element of a list;
* functions from elsewhere, which are what they say they are.

Each can be described, so that it can be built again. A function from elsewhere may
describe itself as it likes.
-/

namespace Lineage

/-- An operator of any number of inputs. -/
inductive Operator where
  /-- The sum of integers. -/
  | add
  /-- The conjunction of truth values. -/
  | and
  /-- The disjunction of truth values. -/
  | or
  /-- The concatenation of strings. -/
  | concat
deriving Repr, DecidableEq

/-- The sign of an operator. -/
def Operator.sign : Operator → String
  | add => "+"
  | and => "∧"
  | or => "∨"
  | concat => "++"

/-- A quantifier over the elements of a list. -/
inductive Quantifier where
  /-- Every element is true. -/
  | forAll
  /-- Some element is true. -/
  | forSome
deriving Repr, DecidableEq

/-- The description of a function. -/
inductive Spec where
  | regexFind (pattern : String)
  | quantifier (q : Quantifier)
  | nary (op : Operator) (arity : Nat)
  | fork (arity : Nat)
  | applyToAll (template : Spec)
deriving Repr, DecidableEq

/-- A function from elsewhere. -/
structure Foreign where
  name : String
  inArity : Nat
  /-- The number of outputs that it declares. -/
  outArity : Nat
  /-- How it describes itself. -/
  spec : Spec
  /-- The outputs for as many inputs as it has, which may be fewer or more than it
      declares. -/
  outputs : List Value → Except Error (List Value)
  /-- It knows of no circuit that it is part of. -/
  outputs_ne_wiring : ∀ inputs fault, outputs inputs ≠ .error (.wiring fault)

/-- A function. -/
inductive Function where
  | nary (op : Operator) (arity : Nat)
  | quantifier (q : Quantifier)
  | find (pattern : Pattern)
  | fork (arity : Nat)
  | applyToAll (template : Function)
  | foreign (f : Foreign)

namespace Function

/-- Takes `inputs` values and returns `outputs`, and declares `declared` outputs. -/
def stub (inputs declared : Nat) (outputs : List Value) : Function :=
  foreign
    { name := "stub"
      inArity := inputs
      outArity := declared
      spec := .fork declared
      outputs := fun _ => .ok outputs
      outputs_ne_wiring := fun _ _ => nofun }

/-- The displayed name. -/
def name : Function → String
  | nary op arity => s!"{op.sign}/{arity}"
  | quantifier .forAll => "forall"
  | quantifier .forSome => "exists"
  | find pattern => s!"Find /{pattern.source}/"
  | fork arity => s!"Fork/{arity}"
  | applyToAll template => s!"ApplyToAll({template.name})"
  | foreign f => f.name

/-- The number of input pins. -/
def inArity : Function → Nat
  | nary _ arity => arity
  | foreign f => f.inArity
  | _ => 1

/-- The number of output pins. -/
def outArity : Function → Nat
  | fork arity => arity
  | foreign f => f.outArity
  | _ => 1

/-- The function that applies a template of one input and one output to each
    element of a list. -/
def overElements (template : Function) : Except Error Function :=
  if template.inArity ≠ 1 then .error (.arity template.name 1 template.inArity)
  else if template.outArity ≠ 1 then .error (.arity template.name 1 template.outArity)
  else .ok (applyToAll template)

end Function

end Lineage
