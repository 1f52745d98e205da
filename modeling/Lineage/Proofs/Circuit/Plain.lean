import Lineage.Proofs.Circuit.Wires

/-!
# Plain evaluation

The outputs of a function, told without any memory of what has been evaluated: a
function is evaluated on what its inputs deliver, in order, and each output that
it needs is computed anew. Around a cycle this would not end, so it is given
`fuel`; where there is none, enough fuel settles the outcome (`Settles`).
-/

namespace Lineage

/-- With enough fuel, the outcome is `r`. -/
def Settles {α : Type} (x : Nat → ExceptT Error Option α) (r : Except Error α) : Prop :=
  ∃ n, ∀ fuel ≥ n, (x fuel).run = some r

namespace Circuit

/-- The value at an input pin, where `outputs` gives the outputs of functions. -/
def delivered (c : Circuit) (outputs : FunctionId → ExceptT Error Option (List Value))
    (input : Pin) : ExceptT Error Option Value :=
  match c.source? input with
  | some (.fed v) => return v
  | some (.wire output) => do
    match (← outputs output.function)[output.number]? with
    | some v => return v
    | none => throw (.wiring (.producedNoOutput output.function output.number))
  | none => throw (.wiring (.notConnected input.function input.number))

/-- The values at the first `arity` input pins of a function, in order. -/
def deliveries (c : Circuit) (outputs : FunctionId → ExceptT Error Option (List Value))
    (id : FunctionId) (arity : Nat) : ExceptT Error Option (List Value) :=
  (List.range arity).mapM fun n => c.delivered outputs ⟨id, n⟩

/-- The outputs of a function, computed anew wherever they are needed. -/
def plain (c : Circuit) : Nat → FunctionId → ExceptT Error Option (List Value)
  | 0, _ => ExceptT.mk none
  | fuel + 1, id => do
    let i ← (c.instance? id : Except Error Instance)
    let inputs ← c.deliveries (c.plain fuel) id i.function.inArity
    let (outputs, _) ← (i.evaluate inputs : Except Error (List Value × Instance))
    return outputs

end Circuit

/-! ### Outcomes that settle -/

variable {α β : Type} {x : Nat → ExceptT Error Option α} {y : α → Nat → ExceptT Error Option β}
  {a : α} {e : Error} {r r' : Except Error α} {s : Except Error β}

theorem Settles.unique (h : Settles x r) (h' : Settles x r') : r = r' := by
  obtain ⟨n, h⟩ := h
  obtain ⟨n', h'⟩ := h'
  have hr := h (max n n') (Nat.le_max_left n n')
  rw [h' _ (Nat.le_max_right n n')] at hr
  exact (Option.some.inj hr).symm

theorem settles_pure : Settles (fun _ => (pure a : ExceptT Error Option α)) (.ok a) :=
  ⟨0, fun _ _ => rfl⟩

theorem settles_throw : Settles (fun _ => (throw e : ExceptT Error Option α)) (.error e) :=
  ⟨0, fun _ _ => rfl⟩

/-- After an outcome has settled, what follows decides. -/
theorem Settles.bind (h : Settles x (.ok a)) (hy : Settles (y a) s) :
    Settles (fun n => x n >>= fun a => y a n) s := by
  obtain ⟨n, h⟩ := h
  obtain ⟨n', hy⟩ := hy
  refine ⟨max n n', fun fuel hfuel => ?_⟩
  have hx := h fuel (Nat.le_trans (Nat.le_max_left n n') hfuel)
  rw [ExceptT.run_bind, hx]
  exact hy fuel (Nat.le_trans (Nat.le_max_right n n') hfuel)

/-- Nothing follows an error. -/
theorem Settles.bind_error (h : Settles x (.error e)) :
    Settles (fun n => x n >>= fun a => y a n) (.error e) := by
  obtain ⟨n, h⟩ := h
  refine ⟨n, fun fuel hfuel => ?_⟩
  rw [ExceptT.run_bind, h fuel hfuel]
  rfl

/-- What settles with less fuel by one settles. -/
theorem Settles.succ (h : Settles (fun n => x (n + 1)) r) : Settles x r := by
  obtain ⟨n, h⟩ := h
  refine ⟨n + 1, fun fuel hfuel => ?_⟩
  obtain ⟨m, rfl⟩ := Nat.exists_eq_add_of_le' hfuel
  exact h (m + n) (Nat.le_add_left n m)

namespace Circuit

variable {c : Circuit} {id : FunctionId} {input output : Pin} {v : Value} {i : Instance}
  {outputs values : List Value} {first count : Nat}

/-! ### Inputs -/

theorem settles_delivered_fed (h : c.source? input = some (.fed v)) :
    Settles (fun n => c.delivered (c.plain n) input) (.ok v) := by
  simp only [delivered, h]
  exact settles_pure

theorem settles_delivered_wire (h : c.source? input = some (.wire output))
    (ho : Settles (c.plain · output.function) (.ok outputs))
    (hv : outputs[output.number]? = some v) :
    Settles (fun n => c.delivered (c.plain n) input) (.ok v) := by
  simp only [delivered, h]
  refine ho.bind ?_
  simp only [hv]
  exact settles_pure

theorem settles_delivered_noOutput (h : c.source? input = some (.wire output))
    (ho : Settles (c.plain · output.function) (.ok outputs)) (hv : outputs[output.number]? = none) :
    Settles (fun n => c.delivered (c.plain n) input)
      (.error (.wiring (.producedNoOutput output.function output.number))) := by
  simp only [delivered, h]
  refine ho.bind ?_
  simp only [hv]
  exact settles_throw

theorem settles_delivered_error (h : c.source? input = some (.wire output))
    (ho : Settles (c.plain · output.function) (.error e)) :
    Settles (fun n => c.delivered (c.plain n) input) (.error e) := by
  simp only [delivered, h]
  exact ho.bind_error

theorem settles_delivered_notConnected (h : c.source? input = none) :
    Settles (fun n => c.delivered (c.plain n) input)
      (.error (.wiring (.notConnected input.function input.number))) := by
  simp only [delivered, h]
  exact settles_throw

/-- The values at `count` input pins of a function from number `first` on. -/
def deliveriesFrom (c : Circuit) (outputs : FunctionId → ExceptT Error Option (List Value))
    (id : FunctionId) (first count : Nat) : ExceptT Error Option (List Value) :=
  (List.range' first count).mapM fun n => c.delivered outputs ⟨id, n⟩

theorem deliveriesFrom_zero {f : FunctionId → ExceptT Error Option (List Value)} :
    c.deliveriesFrom f id 0 count = c.deliveries f id count := by
  rw [deliveriesFrom, deliveries, List.range_eq_range']

theorem deliveriesFrom_succ {f : FunctionId → ExceptT Error Option (List Value)} :
    c.deliveriesFrom f id first (count + 1) = (do
      let v ← c.delivered f ⟨id, first⟩
      let vs ← c.deliveriesFrom f id (first + 1) count
      return v :: vs) := by
  rw [deliveriesFrom, List.range'_succ, List.mapM_cons]
  rfl

/-! ### Functions -/

theorem plain_unknown (h : c.instances[id]? = none) :
    Settles (c.plain · id) (.error (.wiring (.unknownFunction id))) := by
  refine Settles.succ ⟨0, fun fuel _ => ?_⟩
  change (c.plain (fuel + 1) id).run = _
  rw [plain, instance?, h]
  rfl

theorem plain_succ (h : c.instances[id]? = some i) {fuel : Nat} :
    c.plain (fuel + 1) id = (do
      let inputs ← c.deliveries (c.plain fuel) id i.function.inArity
      let (outputs, _) ← (i.evaluate inputs : Except Error (List Value × Instance))
      return outputs) := by
  rw [plain, instance?_eq_ok_iff.2 h]
  rfl

theorem plain_of_deliveries_error (h : c.instances[id]? = some i)
    (hd : Settles (fun n => c.deliveries (c.plain n) id i.function.inArity) (.error e)) :
    Settles (c.plain · id) (.error e) := by
  refine Settles.succ ?_
  simp only [plain_succ h]
  exact hd.bind_error

theorem plain_of_error (h : c.instances[id]? = some i)
    (hd : Settles (fun n => c.deliveries (c.plain n) id i.function.inArity) (.ok values))
    (he : i.evaluate values = .error e) : Settles (c.plain · id) (.error e) := by
  refine Settles.succ ?_
  simp only [plain_succ h]
  refine hd.bind ?_
  simp only [he]
  exact ⟨0, fun _ _ => rfl⟩

theorem plain_of_ok {i' : Instance} (h : c.instances[id]? = some i)
    (hd : Settles (fun n => c.deliveries (c.plain n) id i.function.inArity) (.ok values))
    (he : i.evaluate values = .ok (outputs, i')) : Settles (c.plain · id) (.ok outputs) := by
  refine Settles.succ ?_
  simp only [plain_succ h]
  refine hd.bind ?_
  simp only [he]
  exact ⟨0, fun _ _ => rfl⟩

end Circuit

end Lineage
