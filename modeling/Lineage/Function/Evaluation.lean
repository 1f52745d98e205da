import Lineage.Function.Basic

/-!
# Evaluation

An evaluation gives the outputs and a witness, or fails: on the wrong number of
inputs, on an input of the wrong kind, or on a sum that is no word.
-/

namespace Lineage

/-- The outcome of an evaluation. -/
structure Evaluation where
  outputs : List Value
  witness : Witness
deriving Repr

/-! ### Operators -/

namespace Operator

/-- What an input of the given kind holds. -/
def expect {α : Type} (name : String) (kind : Kind) (view : Value → Option α) (v : Value) :
    Except Error α :=
  match view v with
  | some a => .ok a
  | none => .error (.typeMismatch name kind v.kind)

/-- The running sum after one more input. -/
def addStep (name : String) (sum : Int) (v : Value) : Except Error Int := do
  let i ← expect name .int Value.asInt? v
  match Word.add? sum i with
  | some sum => .ok sum
  | none => .error (.overflow (.sumIn name))

/-- The running conjunction after one more input. -/
def andStep (name : String) (b : Bool) (v : Value) : Except Error Bool := do
  let element ← expect name .bool Value.asBool? v
  return b && element

/-- The running disjunction after one more input. -/
def orStep (name : String) (b : Bool) (v : Value) : Except Error Bool := do
  let element ← expect name .bool Value.asBool? v
  return b || element

/-- The running concatenation after one more input. -/
def concatStep (name : String) (s : String) (v : Value) : Except Error String := do
  let element ← expect name .string Value.asStr? v
  return s ++ element

/-- The value of an operator; the inputs are taken in order. -/
def evaluate (op : Operator) (name : String) (inputs : List Value) : Except Error Value :=
  match op with
  | add => return .int (← inputs.foldlM (addStep name) 0)
  | and => return .bool (← inputs.foldlM (andStep name) true)
  | or => return .bool (← inputs.foldlM (orStep name) false)
  | concat => return .str (← inputs.foldlM (concatStep name) "")

end Operator

/-! ### Quantifiers -/

namespace Quantifier

/-- The value over no elements. -/
def start : Quantifier → Bool
  | forAll => true
  | forSome => false

/-- The value after one more element. -/
def update : Quantifier → Bool → Bool → Bool
  | forAll, b, element => b && element
  | forSome, b, element => b || element

/-- What is known of the elements so far. -/
structure Tally where
  /-- The running value. -/
  value : Bool
  /-- The positions of the elements that go against the value over no elements. -/
  positions : Array Nat
deriving Repr, DecidableEq

/-- One more element, at the given position. -/
def tally (q : Quantifier) (t : Tally) (v : Value) (position : Nat) : Tally where
  value := q.update t.value v.truth
  positions := if v.truth = q.start then t.positions else t.positions.push position

/-- What is known of a list, element by element. -/
def fold (q : Quantifier) (list : List Value) : Tally :=
  list.zipIdx.foldl (fun t e => q.tally t e.1 e.2) ⟨q.start, #[]⟩

/-- The value over a list. -/
def value (q : Quantifier) (list : List Value) : Bool := (q.fold list).value

/-- The positions of the elements that go against the value over no elements. -/
def positions (q : Quantifier) (list : List Value) : List Nat := (q.fold list).positions.toList

end Quantifier

/-! ### Matches -/

/-- What is told of a match: its text, and where it was found, counted in
    characters. An empty match points at nothing and counts as none. -/
def Match.told {s : String} (m : Match s) : String × Option Found :=
  if m.text.isEmpty then ("", none)
  else (m.text, some ⟨m.before, m.before + m.text.length - 1, s.length⟩)

/-- The text a pattern matches in a string, and where it was found. -/
def Pattern.find (p : Pattern) (s : String) : String × Option Found :=
  match p.locate? s with
  | some m => m.told
  | none => ("", none)

namespace Function

/-- Fails unless there is an input for each pin. -/
def checkArity (f : Function) (inputs : List Value) : Except Error Unit :=
  if inputs.length = f.inArity then .ok () else .error (.arity f.name f.inArity inputs.length)

/-- The only input of a function that takes one, of the given kind. -/
def onlyInput {α : Type} (f : Function) (kind : Kind) (view : Value → Option α)
    (inputs : List Value) : Except Error α :=
  match inputs with
  | [v] => Operator.expect f.name kind view v
  | _ => .error (.arity f.name 1 inputs.length)

/-- Evaluates a function. -/
def evaluate : Function → List Value → Except Error Evaluation
  | nary op arity, inputs => do
    checkArity (nary op arity) inputs
    let output ← op.evaluate (nary op arity).name inputs
    return ⟨[output], .linkAll arity⟩
  | quantifier q, inputs => do
    let list ← onlyInput (quantifier q) .list Value.asList? inputs
    return ⟨[.bool (q.value list)], .quantified list.length (q.positions list)⟩
  | find pattern, inputs => do
    let s ← onlyInput (find pattern) .string Value.asStr? inputs
    match pattern.find s with
    | (matched, some place) => return ⟨[.str matched], .found place⟩
    | (matched, none) => return ⟨[.str matched], .linkAll 1⟩
  | fork arity, inputs =>
    match inputs with
    | [v] => return ⟨List.replicate arity v, .forked⟩
    | _ => throw (.arity (fork arity).name 1 inputs.length)
  | applyToAll template, inputs => do
    let list ← onlyInput (applyToAll template) .list Value.asList? inputs
    let evaluations ← list.mapM fun v => template.evaluate [v]
    return ⟨[.list (evaluations.flatMap Evaluation.outputs)],
      .applied (evaluations.map Evaluation.witness)⟩
  | foreign f, inputs => do
    checkArity (foreign f) inputs
    let outputs ← f.outputs inputs
    return ⟨outputs, .linkAll f.inArity⟩

end Function

/-! ### Instances -/

/-- A function, and the witness of its last evaluation. -/
structure Instance where
  function : Function
  last : Option Witness

namespace Instance

/-- A function that has not been evaluated. -/
def new (f : Function) : Instance := ⟨f, none⟩

/-- Evaluates the function, which has to return as many outputs as it declares,
    and keeps the witness. -/
def evaluate (i : Instance) (inputs : List Value) : Except Error (List Value × Instance) := do
  let e ← i.function.evaluate inputs
  if e.outputs.length = i.function.outArity then
    return (e.outputs, { i with last := some e.witness })
  else throw (.arity i.function.name i.function.outArity e.outputs.length)

/-- A copy, which keeps the witness if `preserve`. -/
def duplicate (i : Instance) (preserve : Bool) : Instance :=
  if preserve then i else new i.function

end Instance

end Lineage
