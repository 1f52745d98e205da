import Lineage.Circuit
import Mathlib.Logic.Relation

/-!
# Wires

What is connected or fed last counts, and only to pins that functions have
(`WellWired`). Wires say which functions others need: a function needs another
whose output feeds one of its inputs.
-/

namespace Lineage.Circuit

variable {c c' : Circuit} {input output pin : Pin} {source : Source} {id f g : FunctionId}

/-- An output of `g` feeds an input of `f`. -/
def Needs (c : Circuit) (f g : FunctionId) : Prop :=
  ∃ n m, c.source? ⟨f, n⟩ = some (.wire ⟨g, m⟩)

/-- What a function needs, and what that needs, and so on, the function
    included. -/
def Upstream (c : Circuit) : FunctionId → FunctionId → Prop := Relation.ReflTransGen c.Needs

/-- No wires lead back from a function upstream of `target` to itself. -/
def Acyclic (c : Circuit) (target : FunctionId) : Prop :=
  ∀ f, c.Upstream target f → ¬Relation.TransGen c.Needs f f

/-- Only input pins that there are take a value from somewhere. -/
def WellWired (c : Circuit) : Prop :=
  ∀ input source, c.source? input = some source →
    ∃ i, c.instances[input.function]? = some i ∧ input.number < i.function.inArity

/-! ### Sources -/

/-- A wire is where an input takes its value from, as nothing else is. -/
theorem feeder?_eq_some_iff :
    c.feeder? input = some output ↔ c.source? input = some (.wire output) := by
  rw [feeder?, source?, Sources.source?]
  obtain hw | hf := c.sources.exclusive input
  · rw [hw]
    cases c.sources.fed.lookup input <;> exact ⟨nofun, nofun⟩
  · rw [hf]
    cases c.sources.wires.lookup input <;> simp

theorem lookup_fed_eq_some_iff {v : Value} :
    c.sources.fed.lookup input = some v ↔ c.source? input = some (.fed v) := by
  rw [source?, Sources.source?]
  cases c.sources.fed.lookup input with
  | some w => simp
  | none => cases c.sources.wires.lookup input <;> exact ⟨nofun, nofun⟩

/-- What was connected or fed last counts. -/
theorem source?_setSource :
    (c.setSource input source).source? pin =
      if pin = input then some source else c.source? pin := by
  rw [source?, source?, setSource, Sources.source?, Sources.source?]
  by_cases h : pin = input <;> cases source <;>
    simp only [Sources.set, lookup_cons_forget, lookup_forget, h, if_true, if_false]

theorem source?_of_feeder? (h : c.feeder? input = some output) :
    c.source? input = some (.wire output) :=
  feeder?_eq_some_iff.1 h

theorem instance?_eq_ok_iff {i : Instance} :
    c.instance? id = .ok i ↔ c.instances[id]? = some i := by
  rw [instance?]
  cases c.instances[id]? with
  | none => exact ⟨nofun, nofun⟩
  | some j =>
    exact ⟨fun h => congrArg some (Except.ok.inj h), fun h => congrArg _ (Option.some.inj h)⟩

/-! ### Pins that there are -/

/-- The function declares the output. -/
def HasOutput (c : Circuit) (output : Pin) : Prop :=
  ∃ i, c.instances[output.function]? = some i ∧ output.number < i.function.outArity

/-- The function takes the input. -/
def HasInput (c : Circuit) (input : Pin) : Prop :=
  ∃ i, c.instances[input.function]? = some i ∧ input.number < i.function.inArity

/-- Both checks ask for a function with enough pins. -/
theorem check_eq_ok_iff {id : FunctionId} {n : Nat} (arity : Function → Nat)
    (fault : Nat → Error) :
    (do let k := arity (← c.instance? id).function
        if n < k then return () else throw (fault k) : Except Error Unit) = .ok () ↔
      ∃ i, c.instances[id]? = some i ∧ n < arity i.function := by
  cases hi : c.instance? id with
  | error e =>
    refine ⟨nofun, fun ⟨i, hi', _⟩ => ?_⟩
    exact absurd (hi.symm.trans (instance?_eq_ok_iff.2 hi')) nofun
  | ok i =>
    rw [instance?_eq_ok_iff] at hi
    simp only [bind, Except.bind, hi, Option.some.injEq, exists_eq_left']
    split
    · next h => exact ⟨fun _ => h, fun _ => rfl⟩
    · next h => exact ⟨nofun, fun h' => absurd h' h⟩

theorem checkOutput_eq_ok_iff : c.checkOutput output = .ok () ↔ c.HasOutput output :=
  check_eq_ok_iff Function.outArity fun k => .wiring (.noOutput output.function k output.number)

theorem checkInput_eq_ok_iff : c.checkInput input = .ok () ↔ c.HasInput input :=
  check_eq_ok_iff Function.inArity fun k => .wiring (.noInput input.function k input.number)

theorem connect_eq_ok_iff : c.connect output input = .ok c' ↔
    c.HasOutput output ∧ c.HasInput input ∧ c.setSource input (.wire output) = c' := by
  rw [← checkOutput_eq_ok_iff, ← checkInput_eq_ok_iff, connect]
  cases c.checkOutput output with
  | error e => exact ⟨nofun, nofun⟩
  | ok _ =>
    cases c.checkInput input with
    | error e => exact ⟨nofun, nofun⟩
    | ok _ => exact ⟨fun h => ⟨rfl, rfl, Except.ok.inj h⟩, fun ⟨_, _, h⟩ => congrArg Except.ok h⟩

theorem feed_eq_ok_iff {v : Value} : c.feed input v = .ok c' ↔
    c.HasInput input ∧ c.setSource input (.fed v) = c' := by
  rw [← checkInput_eq_ok_iff, feed]
  cases c.checkInput input with
  | error e => exact ⟨nofun, nofun⟩
  | ok _ => exact ⟨fun h => ⟨rfl, Except.ok.inj h⟩, fun ⟨_, h⟩ => congrArg Except.ok h⟩

/-! ### Wires to pins that there are -/

theorem WellWired.setSource (h : c.WellWired) (hi : c.HasInput input) :
    (c.setSource input source).WellWired := fun pin source' hs => by
  rw [source?_setSource] at hs
  split at hs
  · next hp => exact hp ▸ hi
  · exact h pin source' hs

theorem wellWired_empty : empty.WellWired := fun _ _ h => absurd h nofun

/-- A function is still there after another has been added. -/
theorem exists_instance_add {i : Instance} (f : Function) (hi : c.instances[id]? = some i) :
    ∃ i' : Instance, (c.add f).1.instances[id]? = some i' ∧ i'.function = i.function := by
  have hlt : id < c.instances.size := (Array.getElem?_eq_some_iff.1 hi).1
  exact ⟨i, (Array.getElem?_push_lt hlt).trans (Array.getElem?_eq_getElem hlt ▸ hi), rfl⟩

/-- A copy has the same functions. -/
theorem exists_instance_duplicate {i : Instance} (preserve : Bool)
    (hi : c.instances[id]? = some i) :
    ∃ i' : Instance, (c.duplicate preserve).instances[id]? = some i' ∧
      i'.function = i.function := by
  refine ⟨i.duplicate preserve, ?_, ?_⟩
  · rw [Circuit.duplicate, Array.getElem?_map, hi]
    rfl
  · cases preserve <;> rfl

/-- Wires are well where the sources and the functions are the same. -/
theorem WellWired.congr (h : c.WellWired) (hs : c'.sources = c.sources)
    (hf : ∀ (id : FunctionId) (i : Instance), c.instances[id]? = some i →
      ∃ i' : Instance, c'.instances[id]? = some i' ∧ i'.function = i.function) :
    c'.WellWired := fun input source hsource => by
  rw [source?, hs] at hsource
  obtain ⟨i, hi, hn⟩ := h input source hsource
  obtain ⟨i', hi', heq⟩ := hf _ i hi
  exact ⟨i', hi', heq ▸ hn⟩

theorem WellWired.add (h : c.WellWired) (f : Function) : (c.add f).1.WellWired :=
  h.congr rfl fun _ _ => exists_instance_add f

theorem WellWired.connect (h : c.WellWired) (hc : c.connect output input = .ok c') :
    c'.WellWired := by
  obtain ⟨-, hi, rfl⟩ := connect_eq_ok_iff.1 hc
  exact h.setSource hi

theorem WellWired.feed {v : Value} (h : c.WellWired) (hc : c.feed input v = .ok c') :
    c'.WellWired := by
  obtain ⟨hi, rfl⟩ := feed_eq_ok_iff.1 hc
  exact h.setSource hi

theorem WellWired.duplicate (h : c.WellWired) (preserve : Bool) :
    (c.duplicate preserve).WellWired :=
  h.congr rfl fun _ _ => exists_instance_duplicate preserve

end Lineage.Circuit
