import Lineage.Function.Evaluation

/-!
# Circuits

A circuit holds function instances. Each input pin may take a value from the
output pin of another function, over a wire, or be fed a value from outside;
what was connected or fed last counts.

Evaluating a function pulls the values it needs over the wires, and evaluates
each function at most once. An evaluation that succeeds leaves its witness with
the instance, also when a function that needs its outputs fails.
-/

namespace Lineage

/-- A pin: a function and the number of one of its inputs or outputs. -/
structure Pin where
  function : FunctionId
  number : Nat
deriving Repr, DecidableEq

/-- Where an input pin takes its value from. -/
inductive Source where
  /-- An output pin. -/
  | wire (output : Pin)
  /-- Outside of the circuit. -/
  | fed (v : Value)
deriving Repr, DecidableEq

/-! ### Connected and fed inputs -/

/-- The entries of the other pins. -/
def forget {α : Type} (entries : List (Pin × α)) (input : Pin) : List (Pin × α) :=
  entries.filter (·.1 ≠ input)

theorem lookup_forget {α : Type} (entries : List (Pin × α)) (input pin : Pin) :
    (forget entries input).lookup pin = if pin = input then none else entries.lookup pin := by
  induction entries with
  | nil => exact (ite_self _).symm
  | cons entry entries ih =>
    obtain ⟨p, a⟩ := entry
    by_cases hp : p = input
    · rw [forget, List.filter_cons_of_neg (by simpa using hp), ← forget, ih]
      split
      · rfl
      · next h => rw [List.lookup_cons, beq_eq_false_iff_ne.2 (hp ▸ h)]
    · rw [forget, List.filter_cons_of_pos (by simpa using hp), List.lookup_cons, ← forget, ih]
      by_cases h : pin = input
      · rw [if_pos h, if_pos h, beq_eq_false_iff_ne.2 (h ▸ Ne.symm hp)]
      · rw [if_neg h, if_neg h, List.lookup_cons]

theorem lookup_cons_forget {α : Type} (entries : List (Pin × α)) (input pin : Pin) (a : α) :
    ((input, a) :: forget entries input).lookup pin =
      if pin = input then some a else entries.lookup pin := by
  rw [List.lookup_cons, lookup_forget]
  split
  · next h => rw [if_pos (beq_iff_eq.1 h)]
  · next h =>
    have hne := beq_eq_false_iff_ne.1 h
    rw [if_neg hne, if_neg hne]

/-- Where the input pins of a circuit take their values from. -/
structure Sources where
  /-- The input pins that are connected, with the output pins. -/
  wires : List (Pin × Pin)
  /-- The input pins that are fed, with the values. -/
  fed : List (Pin × Value)
  /-- No input pin is both connected and fed. -/
  exclusive : ∀ input, wires.lookup input = none ∨ fed.lookup input = none
deriving Repr

namespace Sources

/-- Nothing is connected or fed. -/
def empty : Sources := ⟨[], [], fun _ => .inl rfl⟩

/-- Where an input pin takes its value from. -/
def source? (s : Sources) (input : Pin) : Option Source :=
  match s.fed.lookup input, s.wires.lookup input with
  | some v, _ => some (.fed v)
  | none, some output => some (.wire output)
  | none, none => none

/-- Connects or feeds an input pin, in place of what fed it before. -/
def set (s : Sources) (input : Pin) : Source → Sources
  | .wire output =>
    { wires := (input, output) :: forget s.wires input
      fed := forget s.fed input
      exclusive := fun pin => by
        rw [lookup_cons_forget, lookup_forget]
        split
        · exact .inr rfl
        · exact s.exclusive pin }
  | .fed v =>
    { wires := forget s.wires input
      fed := (input, v) :: forget s.fed input
      exclusive := fun pin => by
        rw [lookup_cons_forget, lookup_forget]
        split
        · exact .inl rfl
        · exact s.exclusive pin }

end Sources

/-- Function instances and what feeds their inputs. -/
structure Circuit where
  instances : Array Instance
  sources : Sources

namespace Circuit

/-- No functions. -/
def empty : Circuit := ⟨#[], .empty⟩

instance : Inhabited Circuit := ⟨empty⟩

variable (c : Circuit)

/-- The number of functions. -/
def size : Nat := c.instances.size

/-- A new function, and its number. -/
def add (f : Function) : Circuit × FunctionId :=
  ({ c with instances := c.instances.push (.new f) }, c.size)

/-- The instance of a function. -/
def instance? (id : FunctionId) : Except Error Instance :=
  match c.instances[id]? with
  | some i => .ok i
  | none => .error (.wiring (.unknownFunction id))

/-- Where an input pin takes its value from. -/
def source? (input : Pin) : Option Source := c.sources.source? input

/-- Makes an input pin take its value from `source`. -/
def setSource (input : Pin) (source : Source) : Circuit :=
  { c with sources := c.sources.set input source }

/-- Fails unless the function has the input pin. -/
def checkInput (input : Pin) : Except Error Unit := do
  let arity := (← c.instance? input.function).function.inArity
  if input.number < arity then return ()
  else throw (.wiring (.noInput input.function arity input.number))

/-- Fails unless the function declares the output pin. -/
def checkOutput (output : Pin) : Except Error Unit := do
  let arity := (← c.instance? output.function).function.outArity
  if output.number < arity then return ()
  else throw (.wiring (.noOutput output.function arity output.number))

/-- Connects an output pin to an input pin, in place of what fed it before. -/
def connect (output input : Pin) : Except Error Circuit := do
  c.checkOutput output
  c.checkInput input
  return c.setSource input (.wire output)

/-- Feeds a value to an input pin, in place of what fed it before. -/
def feed (input : Pin) (v : Value) : Except Error Circuit := do
  c.checkInput input
  return c.setSource input (.fed v)

/-! ### Evaluation -/

/-- An evaluation under way. -/
structure Pulling where
  circuit : Circuit
  /-- The functions that have been evaluated, with their outputs. -/
  done : List (FunctionId × List Value)
  /-- The functions whose inputs are being gathered. -/
  visiting : List FunctionId

/-- A step of an evaluation. It keeps what it has done when it fails, and has no
    outcome when its fuel is used up. -/
abbrev Pull := ExceptT Error (StateT Pulling Option)

/-- The value at an input pin; outputs are pulled by `pull`. -/
def inputValue (pull : FunctionId → Pull (List Value)) (input : Pin) : Pull Value := do
  match (← get).circuit.source? input with
  | some (.fed v) => return v
  | some (.wire output) =>
    match (← pull output.function)[output.number]? with
    | some v => return v
    | none => throw (.wiring (.producedNoOutput output.function output.number))
  | none => throw (.wiring (.notConnected input.function input.number))

/-- The values at `count` input pins of a function from number `first` on. -/
def inputValues (pull : FunctionId → Pull (List Value)) (id : FunctionId) :
    Nat → Nat → Pull (List Value)
  | 0, _ => return []
  | count + 1, first => do
    let v ← inputValue pull ⟨id, first⟩
    let vs ← inputValues pull id count (first + 1)
    return v :: vs

/-- The outputs of a function, evaluated unless it has been. A function whose
    inputs are being gathered must not be needed again, so no more functions
    than there are wait for each other: that much fuel is never used up. -/
def pull : Nat → FunctionId → Pull (List Value)
  | 0, _ => fun _ => none
  | fuel + 1, id => do
    let p ← get
    match p.done.lookup id with
    | some outputs => return outputs
    | none =>
      if id ∈ p.visiting then throw (.wiring (.dependsOnItself id))
      set { p with visiting := id :: p.visiting }
      let i ← (p.circuit.instance? id : Except Error Instance)
      let inputs ← inputValues (pull fuel) id i.function.inArity 0
      let (outputs, i) ← (i.evaluate inputs : Except Error (List Value × Instance))
      modify fun p => {
        circuit := { p.circuit with instances := p.circuit.instances.setIfInBounds id i }
        done := (id, outputs) :: p.done
        visiting := p.visiting.erase id }
      return outputs

/-- The outputs of a function, and the circuit with the witnesses of the
    evaluations it took. There is always an outcome. -/
def evaluate (target : FunctionId) : Except Error (List Value) × Circuit :=
  match (pull (c.size + 2) target).run.run ⟨c, [], []⟩ with
  | some (result, p) => (result, p.circuit)
  | none => (.error (.wiring (.dependsOnItself target)), c)

/-- A copy, in which the instances keep their witnesses if `preserve`. -/
def duplicate (preserve : Bool) : Circuit :=
  { c with instances := c.instances.map (·.duplicate preserve) }

/-! ### What explanations follow -/

/-- The output pin that feeds an input pin. -/
def feeder? (input : Pin) : Option Pin := c.sources.wires.lookup input

/-- The witness of the last evaluation of a function. -/
def witness? (id : FunctionId) : Option Witness := c.instances[id]?.bind Instance.last

end Circuit

end Lineage
