import Lineage.Proofs.Circuit.Evaluation
import Mathlib.Data.Option.Basic

/-!
# Circuits that are alike

Two circuits are alike when they have the same functions, the same wires and the
same fed values. Their witnesses may differ: these tell what has been evaluated
before, and when.

An evaluation does not look at witnesses. So in two circuits that are alike it
goes the same way step by step (`pull_agreeing`), to the same outputs or the very
same error, and leaves the same witnesses with the functions that it evaluates
(`Alike.evaluate_eq`, `Alike.instances_eq`).
-/

namespace Lineage.Circuit

variable {α β : Type} {c c' c'' : Circuit} {id f g : FunctionId} {p q : Pulling} {i : Instance}
  {input : Pin}

/-- The function with the given number. -/
def function? (c : Circuit) (id : FunctionId) : Option Function :=
  c.instances[id]?.map Instance.function

/-- The circuits have the same functions, wires and fed values. -/
structure Alike (c c' : Circuit) : Prop where
  function : ∀ id, c.function? id = c'.function? id
  source : ∀ input, c.source? input = c'.source? input

namespace Alike

theorem refl (c : Circuit) : Alike c c := ⟨fun _ => rfl, fun _ => rfl⟩

theorem symm (h : Alike c c') : Alike c' c :=
  ⟨fun id => (h.function id).symm, fun input => (h.source input).symm⟩

theorem trans (h : Alike c c') (h' : Alike c' c'') : Alike c c'' :=
  ⟨fun id => (h.function id).trans (h'.function id),
    fun input => (h.source input).trans (h'.source input)⟩

/-- The instances of a function differ by no more than their witnesses. -/
theorem exists_instance (h : Alike c c') (hi : c.instances[id]? = some i) :
    ∃ i' : Instance, c'.instances[id]? = some i' ∧ i'.function = i.function := by
  have hf : c'.function? id = some i.function := by
    rw [← h.function, function?, hi]
    rfl
  exact Option.map_eq_some_iff.1 hf

theorem instances_eq_none (h : Alike c c') (hi : c.instances[id]? = none) :
    c'.instances[id]? = none := by
  have hf : c'.function? id = none := by
    rw [← h.function, function?, hi]
    rfl
  exact Option.map_eq_none_iff.1 hf

theorem size_le (h : Alike c c') : c'.size ≤ c.size := by
  by_contra hlt
  have hnone := h.instances_eq_none (Array.getElem?_eq_none (Nat.le_refl c.size))
  exact hlt (Array.getElem?_eq_none_iff.1 hnone)

theorem size_eq (h : Alike c c') : c.size = c'.size := Nat.le_antisymm h.symm.size_le h.size_le

theorem feeder?_eq (h : Alike c c') (input : Pin) : c.feeder? input = c'.feeder? input :=
  Option.ext fun output => by rw [feeder?_eq_some_iff, feeder?_eq_some_iff, h.source]

theorem needs_eq (h : Alike c c') : c.Needs = c'.Needs := by
  funext f g
  simp only [Needs, h.source]

theorem upstream_iff (h : Alike c c') : c.Upstream f g ↔ c'.Upstream f g := by
  rw [Upstream, Upstream, h.needs_eq]

/-- A copy is alike, whether it keeps the witnesses or not. -/
theorem duplicate (c : Circuit) (preserve : Bool) : Alike c (c.duplicate preserve) where
  function id := by
    rw [function?, function?, Circuit.duplicate, Array.getElem?_map, Option.map_map]
    congr 1
    funext i
    cases preserve <;> rfl
  source _ := rfl

/-- Nothing is left of a value that was fed in between, witnesses apart. -/
theorem of_refed {source source' : Source} (h : Alike (c.setSource input source') c')
    (hs : c.source? input = some source) : Alike c (c'.setSource input source) where
  function := h.function
  source pin := by
    rw [source?_setSource, ← h.source, source?_setSource]
    by_cases hp : pin = input
    · simp [hp, hs]
    · simp [hp]

end Alike

/-! ### Steps that go the same way -/

/-- Two moments of evaluations: the same functions wait, and the same have been
    done, with the same outputs and witnesses. -/
structure Agree (p q : Pulling) : Prop where
  alike : Alike p.circuit q.circuit
  done : p.done = q.done
  visiting : p.visiting = q.visiting
  witness : ∀ f, p.Done f → p.circuit.instances[f]? = q.circuit.instances[f]?

/-- From one moment each, two steps have the same outcome, if they have one, and
    lead to moments that agree. -/
def Agreeing (x y : Pull α) (p q : Pulling) : Prop :=
  Option.Rel (fun s t => s.1 = t.1 ∧ Agree s.2 t.2) (x.run.run p) (y.run.run q)

section Agreeing

variable {x y : Pull α} {k l : α → Pull β}

theorem Agree.pure (h : Agree p q) (a : α) : Agreeing (pure a) (pure a) p q := .some ⟨rfl, h⟩

theorem Agree.throw (h : Agree p q) (e : Error) :
    Agreeing (throw e : Pull α) (MonadExcept.throw e) p q := .some ⟨rfl, h⟩

theorem Agreeing.bind (hx : Agreeing x y p q)
    (hk : ∀ a p q, Agree p q → Agreeing (k a) (l a) p q) : Agreeing (x >>= k) (y >>= l) p q := by
  rw [Agreeing, ExceptT.run_bind, ExceptT.run_bind, StateT.run_bind, StateT.run_bind]
  rw [Agreeing] at hx
  generalize x.run.run p = s at hx ⊢
  generalize y.run.run q = t at hx ⊢
  cases hx with
  | none => exact .none
  | @some s t h =>
    obtain ⟨r, p'⟩ := s
    obtain ⟨r', q'⟩ := t
    obtain ⟨rfl, h⟩ := h
    cases r with
    | ok a => exact hk a p' q' h
    | error e => exact .some ⟨rfl, h⟩

theorem agreeing_get {k l : Pulling → Pull β} (h : Agreeing (k p) (l q) p q) :
    Agreeing (get >>= k) (get >>= l) p q := h

theorem agreeing_set {k l : PUnit → Pull β} {p' q' : Pulling}
    (h : Agreeing (k ⟨⟩) (l ⟨⟩) p' q') : Agreeing (set p' >>= k) (set q' >>= l) p q := h

theorem agreeing_modify {k l : PUnit → Pull β} {u : Pulling → Pulling}
    (h : Agreeing (k ⟨⟩) (l ⟨⟩) (u p) (u q)) : Agreeing (modify u >>= k) (modify u >>= l) p q := h

theorem agreeing_lift_ok {m : Except Error α} {m' : Except Error α} {a a' : α} (hm : m = .ok a)
    (hm' : m' = .ok a') (h : Agreeing (k a) (l a') p q) :
    Agreeing (liftM m >>= k) (liftM m' >>= l) p q := by
  subst hm hm'
  exact h

theorem agreeing_lift_error {m m' : Except Error α} {e : Error} (hm : m = .error e)
    (hm' : m' = .error e) (h : Agree p q) : Agreeing (liftM m >>= k) (liftM m' >>= l) p q := by
  subst hm hm'
  exact .some ⟨rfl, h⟩

end Agreeing

variable {outputs outputs' : FunctionId → Pull (List Value)}

theorem inputValue_agreeing
    (hpull : ∀ g p q, Agree p q → Agreeing (outputs g) (outputs' g) p q) (h : Agree p q)
    (input : Pin) : Agreeing (inputValue outputs input) (inputValue outputs' input) p q := by
  rw [inputValue, inputValue]
  refine agreeing_get ?_
  rw [h.alike.source]
  cases q.circuit.source? input with
  | none => exact h.throw _
  | some source =>
    cases source with
    | fed v => exact h.pure v
    | wire output =>
      refine (hpull output.function p q h).bind fun values p q h => ?_
      cases values[output.number]? with
      | some v => exact h.pure v
      | none => exact h.throw _

theorem inputValues_agreeing
    (hpull : ∀ g p q, Agree p q → Agreeing (outputs g) (outputs' g) p q) (h : Agree p q)
    (id : FunctionId) (count first : Nat) :
    Agreeing (inputValues outputs id count first) (inputValues outputs' id count first) p q := by
  induction count generalizing first p q with
  | zero => exact h.pure []
  | succ count ih =>
    rw [inputValues, inputValues]
    exact (inputValue_agreeing hpull h _).bind fun v p q h =>
      (ih h (first + 1)).bind fun vs p q h => h.pure (v :: vs)

/-- An instance is evaluated alike whatever its witness. -/
theorem evaluate_congr {j : Instance} (h : j.function = i.function) (values : List Value) :
    j.evaluate values = i.evaluate values := by
  obtain ⟨f, last⟩ := i
  obtain ⟨_, last'⟩ := j
  subst h
  rfl

section Finish

variable {outs : List Value}

theorem instances_finish : (p.finish id outs i).circuit.instances[f]? =
    if f = id then if id < p.circuit.size then some i else none
    else p.circuit.instances[f]? := by
  rw [Pulling.finish, Array.getElem?_setIfInBounds]
  by_cases hf : id = f
  · rw [if_pos hf, if_pos hf.symm]
    rfl
  · rw [if_neg hf, if_neg (Ne.symm hf)]

/-- Moments agree after a function is done with the same outputs and the same
    witness. -/
theorem Agree.finish (h : Agree p q) : Agree (p.finish id outs i) (q.finish id outs i) := by
  have hsize := h.alike.size_eq
  constructor
  case alike =>
    refine ⟨fun f => ?_, h.alike.source⟩
    rw [function?, function?, instances_finish, instances_finish, hsize]
    by_cases hf : f = id
    · simp only [if_pos hf]
    · simp only [if_neg hf]
      exact h.alike.function f
  case done => exact congrArg ((id, outs) :: ·) h.done
  case visiting => exact congrArg (List.erase · id) h.visiting
  case witness =>
    intro f hf
    rw [instances_finish, instances_finish, hsize]
    by_cases hne : f = id
    · simp only [if_pos hne]
    · simp only [if_neg hne]
      exact h.witness f ((done_finish.1 hf).resolve_left hne)

end Finish

/-- Pulling the outputs of a function goes the same way. -/
theorem pull_agreeing (fuel : Nat) (id : FunctionId) (h : Agree p q) :
    Agreeing (pull fuel id) (pull fuel id) p q := by
  induction fuel generalizing id p q with
  | zero => exact .none
  | succ fuel ih =>
    obtain ⟨c, done, visiting⟩ := p
    obtain ⟨c', done', visiting'⟩ := q
    obtain rfl : done = done' := h.done
    obtain rfl : visiting = visiting' := h.visiting
    rw [pull]
    refine agreeing_get ?_
    dsimp only
    cases done.lookup id with
    | some outs => exact h.pure outs
    | none =>
      dsimp only
      split
      · exact .some ⟨rfl, h⟩
      · refine agreeing_set ?_
        have h' : Agree ⟨c, done, id :: visiting⟩ ⟨c', done, id :: visiting⟩ :=
          ⟨h.alike, rfl, rfl, h.witness⟩
        cases hi : c.instances[id]? with
        | none =>
          have hunknown {c : Circuit} (hc : c.instances[id]? = none) :
              c.instance? id = .error (.wiring (.unknownFunction id)) := by
            rw [instance?, hc]
          exact agreeing_lift_error (hunknown hi) (hunknown (h.alike.instances_eq_none hi)) h'
        | some i =>
          obtain ⟨j, hj, hf⟩ := h.alike.exists_instance hi
          refine agreeing_lift_ok (instance?_eq_ok_iff.2 hi) (instance?_eq_ok_iff.2 hj) ?_
          rw [hf]
          -- The instances differ by their witnesses alone, which an evaluation
          -- replaces.
          refine (inputValues_agreeing (fun g _ _ => ih g) h' id _ _).bind
            fun values p q h => ?_
          rw [evaluate_congr hf]
          cases he : i.evaluate values with
          | error e => exact agreeing_lift_error rfl rfl h
          | ok result => exact agreeing_lift_ok rfl rfl (agreeing_modify (h.finish.pure _))

/-! ### Evaluations -/

variable {target : FunctionId} {outs : List Value}

/-- In circuits that are alike, evaluations have the same outcome, and end in
    moments that agree. -/
theorem Alike.exists_agree (h : Alike c c') (hwired : c.WellWired) (target : FunctionId) :
    ∃ r p q, c.evaluate target = (r, p.circuit) ∧ c'.evaluate target = (r, q.circuit) ∧
      Agree p q ∧ IsEvaluation c target r p := by
  obtain ⟨r, p, hrun, heq, hp⟩ := exists_pull_eq hwired target
  have hstart : Agree ⟨c, [], []⟩ ⟨c', [], []⟩ := by
    refine ⟨h, rfl, rfl, fun f hf => ?_⟩
    obtain ⟨_, hf⟩ := hf
    simp at hf
  have hagree := pull_agreeing (c.size + 2) target hstart
  rw [Agreeing, hrun _ (Nat.le_refl _)] at hagree
  generalize hrun' : (pull (c.size + 2) target).run.run ⟨c', [], []⟩ = s at hagree
  cases hagree with
  | @some _ s hs =>
    obtain ⟨r', q⟩ := s
    obtain ⟨rfl, hs⟩ := hs
    refine ⟨r, p, q, heq, ?_, hs, hp⟩
    rw [Circuit.evaluate, ← h.size_eq, hrun']

theorem Alike.evaluate_eq (h : Alike c c') (hwired : c.WellWired) (target : FunctionId) :
    (c.evaluate target).1 = (c'.evaluate target).1 := by
  obtain ⟨r, p, q, hr, hr', -, -⟩ := h.exists_agree hwired target
  rw [hr, hr']

/-- An evaluation changes witnesses and nothing else. -/
theorem alike_evaluate (hwired : c.WellWired) (target : FunctionId) :
    Alike c (c.evaluate target).2 := by
  obtain ⟨r, p, -, heq, hp⟩ := exists_pull_eq hwired target
  rw [heq]
  refine ⟨fun f => ?_, fun input => ?_⟩
  · cases hi : c.instances[f]? with
    | none =>
      have hf : ¬p.Done f := fun hf => by
        obtain ⟨-, i, _, _, he, -⟩ := hp.done f hf
        simp [he.instance_eq] at hi
      rw [function?, function?, hp.kept f hf]
    | some i =>
      obtain ⟨i', hi', heq⟩ := hp.function_eq hi
      simp [function?, hi, hi', heq]
  · rw [source?, source?, hp.sources]

/-- After a success, the functions upstream have the same witnesses, whatever they
    had before. -/
theorem Alike.instances_eq (h : Alike c c') (hwired : c.WellWired)
    (he : (c.evaluate target).1 = .ok outs) (hf : c.Upstream target f) :
    (c.evaluate target).2.instances[f]? = (c'.evaluate target).2.instances[f]? := by
  obtain ⟨r, p, q, hr, hr', hagree, hp⟩ := h.exists_agree hwired target
  rw [hr] at he ⊢
  rw [hr']
  exact hagree.witness f (hp.all outs he f hf)

end Lineage.Circuit
