import Lineage.Proofs.Circuit.Plain
import Mathlib.Data.List.Nodup
import Mathlib.Data.List.Perm.Subperm

/-!
# Evaluations under way

An evaluation remembers which functions have been evaluated and which wait for
their inputs. What it has done so far is right at every moment, also when it
fails later (`Holds`): each function that has been evaluated was evaluated on
what its inputs deliver, and no other function has been touched.

* `Ends` says that a step of an evaluation has an outcome, and what holds then;
* `Serves` is what a step does that is taken for the sake of a function: it
  evaluates only what that function needs, and its outcome is that of plain
  evaluation, unless the function needs itself;
* `pull_ends`: with as much fuel as there are functions, and two, pulling the
  outputs of a function is such a step.
-/

namespace Lineage.Circuit

variable {α β : Type} {c : Circuit} {id f g target : FunctionId} {p p' p₁ : Pulling} {a : α}
  {e : Error} {r : Except Error α}

/-! ### Steps that end -/

/-- The step has an outcome, for which `Q` holds. -/
def Ends (x : Pull α) (p : Pulling) (Q : Except Error α → Pulling → Prop) : Prop :=
  ∃ r p', x.run.run p = some (r, p') ∧ Q r p'

section Ends

variable {x : Pull α} {k : α → Pull β} {Q : Except Error α → Pulling → Prop}
  {R : Except Error β → Pulling → Prop}

theorem ends_pure (h : Q (.ok a) p) : Ends (pure a) p Q := ⟨_, _, rfl, h⟩

theorem ends_throw (h : Q (.error e) p) : Ends (throw e) p Q := ⟨_, _, rfl, h⟩

theorem Ends.imp {Q' : Except Error α → Pulling → Prop} (hx : Ends x p Q)
    (h : ∀ r p', Q r p' → Q' r p') : Ends x p Q' := by
  obtain ⟨r, p', hr, hq⟩ := hx
  exact ⟨r, p', hr, h r p' hq⟩

theorem ends_bind (hx : Ends x p Q) (hok : ∀ a p', Q (.ok a) p' → Ends (k a) p' R)
    (herror : ∀ e p', Q (.error e) p' → R (.error e) p') : Ends (x >>= k) p R := by
  obtain ⟨r, p', hr, hq⟩ := hx
  cases r with
  | ok a =>
    obtain ⟨r', p'', hr', hq'⟩ := hok a p' hq
    refine ⟨r', p'', ?_, hq'⟩
    rw [ExceptT.run_bind, StateT.run_bind, hr]
    exact hr'
  | error e =>
    refine ⟨.error e, p', ?_, herror e p' hq⟩
    rw [ExceptT.run_bind, StateT.run_bind, hr]
    rfl

theorem ends_throw_bind (h : R (.error e) p) : Ends (throw e >>= k) p R := ⟨_, _, rfl, h⟩

theorem ends_get {k : Pulling → Pull β} (h : Ends (k p) p R) : Ends (get >>= k) p R := h

theorem ends_set {k : PUnit → Pull β} (h : Ends (k ⟨⟩) p₁ R) : Ends (set p₁ >>= k) p R := h

theorem ends_modify {k : PUnit → Pull β} {f : Pulling → Pulling} (h : Ends (k ⟨⟩) (f p) R) :
    Ends (modify f >>= k) p R := h

theorem ends_lift_ok {m : Except Error α} (hm : m = .ok a) (h : Ends (k a) p R) :
    Ends (liftM m >>= k) p R := hm ▸ h

theorem ends_lift_error {m : Except Error α} (hm : m = .error e) (h : R (.error e) p) :
    Ends (liftM m >>= k) p R := hm ▸ ⟨_, _, rfl, h⟩

end Ends

/-! ### What holds at every moment -/

/-- The function has been evaluated. -/
def Pulling.Done (p : Pulling) (f : FunctionId) : Prop := ∃ outputs, p.done.lookup f = some outputs

/-- The function, which is `i`, is evaluated on the values that its inputs
    deliver. -/
structure Evaluated (c : Circuit) (f : FunctionId) (i : Instance) (values : List Value)
    (e : Evaluation) : Prop where
  instance_eq : c.instances[f]? = some i
  deliveries : Settles (fun n => c.deliveries (c.plain n) f i.function.inArity) (.ok values)
  evaluate : i.function.evaluate values = .ok e
  length : e.outputs.length = i.function.outArity

/-- The function itself fails, not one that it needs. -/
inductive Fault (c : Circuit) (f : FunctionId) : Error → Prop where
  | unknown (h : c.instances[f]? = none) : Fault c f (.wiring (.unknownFunction f))
  | dependsOnItself (h : Relation.TransGen c.Needs f f) : Fault c f (.wiring (.dependsOnItself f))
  | notConnected {i : Instance} {n : Nat} (hi : c.instances[f]? = some i)
    (hn : n < i.function.inArity) (h : c.source? ⟨f, n⟩ = none) :
    Fault c f (.wiring (.notConnected f n))
  | producedNoOutput {i : Instance} {n : Nat} {output : Pin} {outputs : List Value}
    (hi : c.instances[f]? = some i) (hn : n < i.function.inArity)
    (h : c.source? ⟨f, n⟩ = some (.wire output))
    (ho : Settles (c.plain · output.function) (.ok outputs))
    (hnone : outputs[output.number]? = none) :
    Fault c f (.wiring (.producedNoOutput output.function output.number))
  | evaluation {i : Instance} {values : List Value} {e : Error} (hi : c.instances[f]? = some i)
    (hd : Settles (fun n => c.deliveries (c.plain n) f i.function.inArity) (.ok values))
    (he : i.evaluate values = .error e) : Fault c f e

/-- What has been done is right, and nothing else has been done. -/
structure Holds (c : Circuit) (p : Pulling) : Prop where
  sources : p.circuit.sources = c.sources
  kept : ∀ f, ¬p.Done f → p.circuit.instances[f]? = c.instances[f]?
  done : ∀ f outputs, p.done.lookup f = some outputs → ∃ i values e, Evaluated c f i values e ∧
    outputs = e.outputs ∧ p.circuit.instances[f]? = some ⟨i.function, some e.witness⟩
  /-- What is needed has been done before. -/
  closed : ∀ f g, p.Done f → c.Needs f g → p.Done g

/-- Functions that wait have not been done. -/
structure Ready (c : Circuit) (p : Pulling) : Prop extends Holds c p where
  nodup : p.visiting.Nodup
  lt : ∀ f ∈ p.visiting, f < c.size
  undone : ∀ f ∈ p.visiting, ¬p.Done f

/-- From one moment to a later one, functions are done for the sake of `id`. -/
structure Advances (c : Circuit) (id : FunctionId) (p p' : Pulling) : Prop where
  holds : Holds c p'
  mono : ∀ f outputs, p.done.lookup f = some outputs → p'.done.lookup f = some outputs
  upstream : ∀ f, p'.Done f → p.Done f ∨ c.Upstream id f
  undone : ∀ f ∈ p.visiting, ¬p'.Done f

/-- A step taken for the sake of `id`, which is to compute `x` and to make sure
    that the functions `S` are done. -/
structure Serves (c : Circuit) (id : FunctionId) (x : Nat → ExceptT Error Option α)
    (S : FunctionId → Prop) (p : Pulling) (r : Except Error α) (p' : Pulling) : Prop
    extends Advances c id p p' where
  ok : ∀ a, r = .ok a → p'.visiting = p.visiting ∧ Settles x (.ok a) ∧ ∀ f, S f → p'.Done f
  error : ∀ e, r = .error e → (∃ f, c.Upstream id f ∧ ¬p'.Done f ∧ Fault c f e) ∧
    (c.Acyclic id → Settles x (.error e))

theorem Pulling.Done.mono (h : p.Done f)
    (hmono : ∀ f outputs, p.done.lookup f = some outputs → p'.done.lookup f = some outputs) :
    p'.Done f := by
  obtain ⟨outputs, h⟩ := h
  exact ⟨outputs, hmono f outputs h⟩

theorem Acyclic.of_upstream (h : c.Acyclic f) (hg : c.Upstream f g) : c.Acyclic g :=
  fun g' hg' => h g' (hg.trans hg')

namespace Ready

theorem advances (h : Ready c p) : Advances c id p p where
  holds := h.toHolds
  mono _ _ := fun h => h
  upstream _ hf := .inl hf
  undone := h.undone

/-- No more functions wait than there are. -/
theorem length_le (h : Ready c p) : p.visiting.length ≤ c.size := by
  have hsub : p.visiting ⊆ List.range c.size := fun f hf => List.mem_range.2 (h.lt f hf)
  have := (List.subperm_of_subset h.nodup hsub).length_le
  rwa [List.length_range] at this

theorem of_advances (h : Ready c p) (ha : Advances c id p p') (hv : p'.visiting = p.visiting) :
    Ready c p' where
  toHolds := ha.holds
  nodup := hv ▸ h.nodup
  lt f hf := h.lt f (hv ▸ hf)
  undone f hf := ha.undone f (hv ▸ hf)

end Ready

theorem Advances.trans (h : Advances c id p p₁) (h' : Advances c id p₁ p')
    (hv : p₁.visiting = p.visiting) : Advances c id p p' where
  holds := h'.holds
  mono f outputs hf := h'.mono f outputs (h.mono f outputs hf)
  upstream f hf := (h'.upstream f hf).elim (h.upstream f) .inr
  undone f hf := h'.undone f (hv ▸ hf)

theorem Advances.of_upstream (h : Advances c g p p') (hg : c.Upstream f g) : Advances c f p p' where
  holds := h.holds
  mono := h.mono
  upstream f' hf := (h.upstream f' hf).imp_right hg.trans
  undone := h.undone

/-- One function more waits. -/
theorem Ready.visit {i : Instance} (h : Ready c p) (hi : c.instances[id]? = some i)
    (hid : ¬p.Done id) (hmem : id ∉ p.visiting) :
    Ready c { p with visiting := id :: p.visiting } where
  sources := h.sources
  kept := h.kept
  done := h.done
  closed := h.closed
  nodup := List.nodup_cons.2 ⟨hmem, h.nodup⟩
  lt f hf := (List.mem_cons.1 hf).elim (fun he => he ▸ (Array.getElem?_eq_some_iff.1 hi).1) (h.lt f)
  undone f hf := (List.mem_cons.1 hf).elim (fun he => he ▸ hid) (h.undone f)

theorem Advances.of_visit (h : Advances c id { p with visiting := f :: p.visiting } p') :
    Advances c id p p' where
  holds := h.holds
  mono := h.mono
  upstream := h.upstream
  undone g hg := h.undone g (List.mem_cons_of_mem f hg)

/-! ### Steps taken for the sake of a function -/

section Serves

variable {x : Nat → ExceptT Error Option α} {y : α → Nat → ExceptT Error Option β}
  {S T : FunctionId → Prop} {m : Pull α} {k : α → Pull β}

theorem Serves.of_ok (h : Advances c id p p') (hv : p'.visiting = p.visiting)
    (hx : Settles x (.ok a)) (hS : ∀ f, S f → p'.Done f) : Serves c id x S p (.ok a) p' where
  toAdvances := h
  ok b hb := by
    obtain rfl := Except.ok.inj hb
    exact ⟨hv, hx, hS⟩
  error _ he := absurd he nofun

/-- The step comes upon a fault. -/
theorem Serves.of_fault (h : Advances c id p p') (hf : c.Upstream id f) (hundone : ¬p'.Done f)
    (hfault : Fault c f e) (hx : c.Acyclic id → Settles x (.error e)) :
    Serves c id x S p (.error e) p' where
  toAdvances := h
  ok _ ha := absurd ha nofun
  error e' he := by
    obtain rfl := Except.error.inj he
    exact ⟨⟨f, hf, hundone, hfault⟩, hx⟩

/-- The step fails because another, taken for the sake of a function upstream, has
    failed. -/
theorem Serves.of_failure {z : Nat → ExceptT Error Option β}
    (h : Serves c g x S p₁ (.error e) p') (ha : Advances c id p p') (hg : c.Upstream id g)
    (hz : c.Acyclic id → Settles x (.error e) → Settles z (.error e)) :
    Serves c id z T p (.error e) p' := by
  obtain ⟨⟨f, hf, hundone, hfault⟩, hx⟩ := h.error e rfl
  exact .of_fault ha (hg.trans hf) hundone hfault fun hacyclic =>
    hz hacyclic (hx (hacyclic.of_upstream hg))

theorem Serves.imp (h : Serves c id x S p r p') (hS : ∀ f, T f → S f) : Serves c id x T p r p' where
  toAdvances := h.toAdvances
  ok a ha := by
    obtain ⟨hv, hx, hdone⟩ := h.ok a ha
    exact ⟨hv, hx, fun f hf => hdone f (hS f hf)⟩
  error := h.error

/-- A step that returns at once serves any function. -/
theorem ends_pure_serves (h : Ready c p) :
    Ends (pure a) p (Serves c id (fun _ => pure a) (fun _ => False) p) :=
  ends_pure (.of_ok h.advances rfl settles_pure fun _ => False.elim)

/-- Two steps that serve a function serve it one after the other. -/
theorem ends_bind_serves (hp : Ready c p) (hm : Ends m p (Serves c id x S p))
    (hk : ∀ a p', Ready c p' → p'.visiting = p.visiting →
      Ends (k a) p' (Serves c id (y a) T p')) :
    Ends (m >>= k) p (Serves c id (fun n => x n >>= fun a => y a n) (fun f => S f ∨ T f) p) := by
  refine ends_bind hm (fun a p₁ h₁ => ?_) (fun e p' h => ?_)
  · obtain ⟨hv, hx, hdone⟩ := h₁.ok a rfl
    refine (hk a p₁ (hp.of_advances h₁.toAdvances hv) hv).imp fun r p' h => ?_
    refine ⟨h₁.toAdvances.trans h.toAdvances hv, fun b hb => ?_, fun e he => ?_⟩
    · obtain ⟨hv', hy, hdone'⟩ := h.ok b hb
      exact ⟨hv'.trans hv, hx.bind hy, fun f hf => hf.elim (fun hf => (hdone f hf).mono h.mono)
        (hdone' f)⟩
    · obtain ⟨hfault, hy⟩ := h.error e he
      exact ⟨hfault, fun hacyclic => hx.bind (hy hacyclic)⟩
  · exact h.of_failure h.toAdvances .refl fun _ hx => hx.bind_error

end Serves

/-! ### Inputs -/

variable {i : Instance} {outputs : FunctionId → Pull (List Value)} {n first count : Nat}
  {waiting : List FunctionId}

theorem Holds.source?_eq (h : Holds c p) (input : Pin) :
    p.circuit.source? input = c.source? input := by
  rw [source?, h.sources, source?]

/-- An input that is gathered is the value that is delivered to it. -/
theorem inputValue_ends (hp : Ready c p) (hid : id ∈ p.visiting)
    (hi : c.instances[id]? = some i) (hn : n < i.function.inArity)
    (hpull : ∀ g, c.Needs id g → Ends (outputs g) p (Serves c g (c.plain · g) (· = g) p)) :
    Ends (inputValue outputs ⟨id, n⟩) p (Serves c id (fun k => c.delivered (c.plain k) ⟨id, n⟩)
      (fun g => ∃ m, c.source? ⟨id, n⟩ = some (.wire ⟨g, m⟩)) p) := by
  rw [inputValue]
  refine ends_get ?_
  rw [hp.source?_eq]
  cases hs : c.source? ⟨id, n⟩ with
  | none =>
    exact ends_throw (.of_fault hp.advances .refl (hp.undone id hid) (.notConnected hi hn hs)
      fun _ => settles_delivered_notConnected hs)
  | some source =>
    cases source with
    | fed v =>
      exact ends_pure (.of_ok hp.advances rfl (settles_delivered_fed hs) fun g hg =>
        absurd hg.choose_spec nofun)
    | wire output =>
      have hneeds : c.Needs id output.function := ⟨n, output.number, hs⟩
      refine ends_bind (hpull _ hneeds) (fun values p' h => ?_) (fun e p' h => ?_)
      · obtain ⟨hv, ho, hdone⟩ := h.ok values rfl
        have ha : Advances c id p p' := h.toAdvances.of_upstream (.single hneeds)
        cases hvalue : values[output.number]? with
        | some v =>
          refine ends_pure (.of_ok ha hv (settles_delivered_wire hs ho hvalue) fun g hg => ?_)
          obtain ⟨m, hg⟩ := hg
          cases hg
          exact hdone _ rfl
        | none =>
          exact ends_throw (.of_fault ha .refl (ha.undone id hid)
            (.producedNoOutput hi hn hs ho hvalue)
            fun _ => settles_delivered_noOutput hs ho hvalue)
      · exact h.of_failure (h.toAdvances.of_upstream (.single hneeds)) (.single hneeds)
          fun _ => settles_delivered_error hs

/-- Inputs that are gathered are the values that are delivered to them. -/
theorem inputValues_ends (hp : Ready c p) (hwaiting : p.visiting = waiting) (hid : id ∈ waiting)
    (hi : c.instances[id]? = some i) (hcount : first + count ≤ i.function.inArity)
    (hpull : ∀ p, Ready c p → p.visiting = waiting → ∀ g, c.Needs id g →
      Ends (outputs g) p (Serves c g (c.plain · g) (· = g) p)) :
    Ends (inputValues outputs id count first) p
      (Serves c id (fun k => c.deliveriesFrom (c.plain k) id first count)
        (fun g => ∃ n m, first ≤ n ∧ n < first + count ∧ c.source? ⟨id, n⟩ = some (.wire ⟨g, m⟩))
        p) := by
  induction count generalizing first p with
  | zero =>
    rw [inputValues]
    refine (ends_pure_serves hp).imp fun r p' h => h.imp fun f hf => ?_
    obtain ⟨n, m, hle, hlt, -⟩ := hf
    exact absurd hlt (Nat.not_lt.2 hle)
  | succ count ih =>
    have hx : (fun k => c.deliveriesFrom (c.plain k) id first (count + 1)) = fun k =>
        c.delivered (c.plain k) ⟨id, first⟩ >>= fun v =>
          c.deliveriesFrom (c.plain k) id (first + 1) count >>= fun vs => pure (v :: vs) :=
      funext fun _ => deliveriesFrom_succ
    rw [inputValues, hx]
    refine (ends_bind_serves hp (inputValue_ends hp (hwaiting ▸ hid) hi (by omega)
      (hpull p hp hwaiting)) fun v p₁ hp₁ hv₁ => ends_bind_serves hp₁
        (ih hp₁ (hv₁.trans hwaiting) (by omega)) fun vs p₂ hp₂ _ =>
          ends_pure_serves hp₂).imp fun r p' h => h.imp fun f hf => ?_
    obtain ⟨n, m, hle, hlt, hs⟩ := hf
    rcases Nat.eq_or_lt_of_le hle with rfl | hle
    · exact .inl ⟨m, hs⟩
    · exact .inr (.inl ⟨n, m, hle, by omega, hs⟩)

/-! ### Functions -/

variable {values outs : List Value} {i' : Instance}

/-- An instance that is evaluated keeps the witness of its function. -/
theorem exists_evaluation (h : i.evaluate values = .ok (outs, i')) :
    ∃ e, i.function.evaluate values = .ok e ∧ e.outputs.length = i.function.outArity ∧
      outs = e.outputs ∧ i' = ⟨i.function, some e.witness⟩ := by
  rw [Instance.evaluate] at h
  cases he : i.function.evaluate values with
  | error e =>
    rw [he] at h
    exact absurd h nofun
  | ok e =>
    rw [he] at h
    by_cases hlength : e.outputs.length = i.function.outArity
    · simp only [bind, Except.bind, if_pos hlength] at h
      obtain ⟨rfl, rfl⟩ := Prod.mk.inj (Except.ok.inj h)
      exact ⟨e, rfl, hlength, rfl, rfl⟩
    · simp only [bind, Except.bind, if_neg hlength] at h
      exact absurd h nofun

theorem evaluate_eq_ok {ev : Evaluation} (he : i.function.evaluate values = .ok ev)
    (hlength : ev.outputs.length = i.function.outArity) :
    i.evaluate values = .ok (ev.outputs, ⟨i.function, some ev.witness⟩) := by
  rw [Instance.evaluate, he]
  simp only [bind, Except.bind, if_pos hlength]
  rfl

theorem Evaluated.settles {ev : Evaluation} (h : Evaluated c f i values ev) :
    Settles (c.plain · f) (.ok ev.outputs) :=
  plain_of_ok h.instance_eq h.deliveries (evaluate_eq_ok h.evaluate h.length)

/-- A function that has been done has the outputs of plain evaluation. -/
theorem Holds.settles (h : Holds c p) (hd : p.done.lookup f = some outs) :
    Settles (c.plain · f) (.ok outs) := by
  obtain ⟨i, values, ev, he, rfl, -⟩ := h.done f outs hd
  exact he.settles

/-- The moment after the function `id` has been evaluated. -/
def Pulling.finish (p : Pulling) (id : FunctionId) (outs : List Value) (i : Instance) :
    Pulling where
  circuit := { p.circuit with instances := p.circuit.instances.setIfInBounds id i }
  done := (id, outs) :: p.done
  visiting := p.visiting.erase id

theorem lookup_finish : (p.finish id outs i).done.lookup f =
    if f = id then some outs else p.done.lookup f := by
  rw [Pulling.finish, List.lookup_cons]
  by_cases h : f = id
  · rw [if_pos h, h, beq_self_eq_true]
  · rw [if_neg h, beq_eq_false_iff_ne.2 h]

theorem done_finish : (p.finish id outs i).Done f ↔ f = id ∨ p.Done f := by
  rw [Pulling.Done, lookup_finish]
  by_cases h : f = id
  · rw [if_pos h]
    exact ⟨fun _ => .inl h, fun _ => ⟨outs, rfl⟩⟩
  · rw [if_neg h]
    exact ⟨.inr, fun hd => hd.resolve_left h⟩

/-- A function is done rightly once what it needs is done. -/
theorem Holds.finish {ev : Evaluation} (h : Holds c p) (hid : ¬p.Done id)
    (he : Evaluated c id i values ev) (hneeds : ∀ g, c.Needs id g → p.Done g) :
    Holds c (p.finish id ev.outputs ⟨i.function, some ev.witness⟩) where
  sources := h.sources
  kept f hf := by
    obtain ⟨hne, hf⟩ := not_or.1 (fun hd => hf (done_finish.2 hd))
    exact (Array.getElem?_setIfInBounds_ne (Ne.symm hne)).trans (h.kept f hf)
  done f outs hf := by
    rw [lookup_finish] at hf
    split at hf
    · next hfid =>
      subst hfid
      obtain rfl := Option.some.inj hf
      have hlt : f < p.circuit.instances.size :=
        (Array.getElem?_eq_some_iff.1 ((h.kept f hid).trans he.instance_eq)).1
      exact ⟨i, values, ev, he, rfl, Array.getElem?_setIfInBounds_self_of_lt hlt⟩
    · next hne =>
      obtain ⟨j, values', ev', he', ho, hj⟩ := h.done f outs hf
      exact ⟨j, values', ev', he', ho, (Array.getElem?_setIfInBounds_ne (Ne.symm hne)).trans hj⟩
  -- This is why `id` may not be done before what it needs.
  closed f g hf hg := by
    rcases done_finish.1 hf with rfl | hf
    · exact done_finish.2 (.inr (hneeds g hg))
    · exact done_finish.2 (.inr (h.closed f g hf hg))

/-- To do a function that waited is an advance from before it waited. -/
theorem Advances.finish {ev : Evaluation}
    (h : Advances c id { p with visiting := id :: p.visiting } p') (hid : ¬p.Done id)
    (hmem : id ∉ p.visiting) (he : Evaluated c id i values ev)
    (hneeds : ∀ g, c.Needs id g → p'.Done g) :
    Advances c id p (p'.finish id ev.outputs ⟨i.function, some ev.witness⟩) where
  holds := h.holds.finish (h.undone id List.mem_cons_self) he hneeds
  mono f outs hf := by
    rw [lookup_finish, if_neg fun hfid : f = id => hid (hfid ▸ ⟨outs, hf⟩)]
    exact h.mono f outs hf
  upstream f hf := by
    rcases done_finish.1 hf with rfl | hf
    · exact .inr .refl
    · exact h.upstream f hf
  undone f hf hd := by
    rcases done_finish.1 hd with rfl | hd
    · exact hmem hf
    · exact h.undone f (List.mem_cons_of_mem id hf) hd

/-- A function whose inputs have been gathered is evaluated, or fails. -/
theorem evaluate_ends (hid : ¬p.Done id) (hmem : id ∉ p.visiting) (hi : c.instances[id]? = some i)
    {S : FunctionId → Prop}
    (h : Serves c id (fun k => c.deliveries (c.plain k) id i.function.inArity) S
      { p with visiting := id :: p.visiting } (.ok values) p')
    (hneeds : ∀ g, c.Needs id g → S g) :
    Ends (do
      let (outputs, i) ← (i.evaluate values : Except Error (List Value × Instance))
      modify fun p => p.finish id outputs i
      return outputs) p' (Serves c id (c.plain · id) (· = id) p) := by
  obtain ⟨hv, hx, hdone⟩ := h.ok values rfl
  cases he : i.evaluate values with
  | error e =>
    exact ends_lift_error rfl (.of_fault h.toAdvances.of_visit .refl
      (h.undone id List.mem_cons_self) (.evaluation hi hx he) fun _ => plain_of_error hi hx he)
  | ok result =>
    obtain ⟨outs, i'⟩ := result
    obtain ⟨ev, hev, hlength, rfl, rfl⟩ := exists_evaluation he
    have hvisiting : (p'.finish id ev.outputs ⟨i.function, some ev.witness⟩).visiting =
        p.visiting := by
      change p'.visiting.erase id = p.visiting
      rw [hv, List.erase_cons_head]
    have ha := h.toAdvances.finish hid hmem ⟨hi, hx, hev, hlength⟩ fun g hg =>
      hdone g (hneeds g hg)
    exact ends_lift_ok rfl (ends_modify (ends_pure (.of_ok ha hvisiting (plain_of_ok hi hx he)
      fun f hf => done_finish.2 (.inl hf))))

/-- With as much fuel as there are functions, and two, pulling the outputs of a
    function gives those of plain evaluation. -/
theorem pull_ends (hwired : c.WellWired) {fuel : Nat} (hp : Ready c p)
    (hpath : ∀ f ∈ p.visiting, Relation.TransGen c.Needs f id)
    (hfuel : c.size + 2 ≤ fuel + p.visiting.length) :
    Ends (pull fuel id) p (Serves c id (c.plain · id) (· = id) p) := by
  induction fuel generalizing id p with
  | zero =>
    have := hp.length_le
    omega
  | succ fuel ih =>
    rw [pull]
    refine ends_get ?_
    cases hl : p.done.lookup id with
    | some outs =>
      exact ends_pure (.of_ok hp.advances rfl (hp.settles hl) fun f hf => hf ▸ ⟨_, hl⟩)
    | none =>
      have hid : ¬p.Done id := fun ⟨outs, h⟩ => absurd (hl.symm.trans h) nofun
      dsimp only
      split
      · next hmem =>
        -- The functions that wait all need this one, which is one of them.
        have hcycle : Relation.TransGen c.Needs id id := hpath id hmem
        exact ends_throw_bind (.of_fault hp.advances .refl hid (.dependsOnItself hcycle)
          fun hacyclic => absurd hcycle (hacyclic id .refl))
      · next hmem =>
        refine ends_set ?_
        have hkept : p.circuit.instance? id = c.instance? id := by
          rw [instance?, instance?, hp.kept id hid]
        rw [hkept]
        cases hi : c.instances[id]? with
        | none =>
          have hunknown : c.instance? id = .error (.wiring (.unknownFunction id)) := by
            rw [instance?, hi]
          have ha : Advances c id p { p with visiting := id :: p.visiting } :=
            ⟨⟨hp.sources, hp.kept, hp.done, hp.closed⟩, fun _ _ h => h, fun _ => .inl, hp.undone⟩
          exact ends_lift_error hunknown (.of_fault ha .refl hid (.unknown hi)
            fun _ => plain_unknown hi)
        | some i =>
          refine ends_lift_ok (instance?_eq_ok_iff.2 hi) ?_
          refine ends_bind (inputValues_ends (hp.visit hi hid hmem) rfl List.mem_cons_self hi
            (Nat.le_of_eq (Nat.zero_add _)) fun p' hp' hv g hg => ih hp' (fun f hf => ?_) ?_)
            (fun values p' h => ?_) (fun e p' h => ?_)
          · -- The functions that wait need the next one by way of this one.
            rw [hv] at hf
            rcases List.mem_cons.1 hf with rfl | hf
            · exact .single hg
            · exact (hpath f hf).tail hg
          · rw [hv, List.length_cons]
            omega
          · simp only [deliveriesFrom_zero] at h
            refine evaluate_ends hid hmem hi h fun g hg => ?_
            obtain ⟨n, m, hs⟩ := hg
            obtain ⟨j, hj, hn⟩ := hwired _ _ hs
            obtain rfl := Option.some.inj (hi.symm.trans hj)
            exact ⟨n, m, Nat.zero_le n, by rw [Nat.zero_add]; exact hn, hs⟩
          · refine h.of_failure h.toAdvances.of_visit .refl fun _ hx => ?_
            simp only [deliveriesFrom_zero] at hx
            exact plain_of_deliveries_error hi hx

end Lineage.Circuit
