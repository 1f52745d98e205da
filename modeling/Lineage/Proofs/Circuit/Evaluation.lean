import Lineage.Proofs.Chains
import Lineage.Proofs.Circuit.Pull
import Lineage.Proofs.Function.Evaluation
import Mathlib.Data.List.Forall2

/-!
# Evaluation of circuits

An evaluation always ends, and remembering what has been evaluated makes no
difference to its outcome: where no function needs its own output, the outcome is
that of plain evaluation, the very error included; around a cycle it is an error
(`exists_isEvaluation`).

It leaves its traces in the witnesses alone. The functions that were evaluated,
before an error if there was one, have the witness of that evaluation; the others
have the witness they had.
-/

namespace Lineage.Circuit

variable {c c' : Circuit} {target f g : FunctionId} {p p' : Pulling}
  {r : Except Error (List Value)} {outs : List Value}

/-- What the evaluation of `target` comes to: the outcome `r`, and the moment `p`
    at its end. -/
structure IsEvaluation (c : Circuit) (target : FunctionId) (r : Except Error (List Value))
    (p : Pulling) : Prop where
  /-- Where no function needs itself, the outcome is that of plain evaluation. -/
  settles : c.Acyclic target → Settles (c.plain · target) r
  /-- A function that is needed twice is not taken for one that needs itself. -/
  ne_dependsOnItself : c.Acyclic target → ∀ f, r ≠ .error (.wiring (.dependsOnItself f))
  /-- Where a function needs itself, there are no outputs. -/
  cyclic : ¬c.Acyclic target → ∃ e, r = .error e
  /-- The functions that have been done are upstream, and hold the witness of their
      evaluation on what was delivered to them. -/
  done : ∀ f, p.Done f → c.Upstream target f ∧ ∃ i values e, Evaluated c f i values e ∧
    p.circuit.instances[f]? = some ⟨i.function, some e.witness⟩
  /-- The other functions are as they were. -/
  kept : ∀ f : FunctionId, ¬p.Done f → p.circuit.instances[f]? = c.instances[f]?
  /-- After a success, all functions upstream have been done. -/
  all : ∀ outs, r = .ok outs → ∀ f, c.Upstream target f → p.Done f
  /-- After a failure, the function that failed has not. -/
  fault : ∀ e, r = .error e → ∃ f, c.Upstream target f ∧ ¬p.Done f ∧ Fault c f e
  /-- Wires and fed values are as they were. -/
  sources : p.circuit.sources = c.sources

/-! ### Fuel -/

section Fuel

variable {α β : Type} {x y : Pull α} {k l : α → Pull β}

/-- What has an outcome has the same in `y`. -/
def Pull.Below (x y : Pull α) : Prop := ∀ p o, x.run.run p = some o → y.run.run p = some o

theorem Pull.Below.refl : Pull.Below x x := fun _ _ h => h

theorem Pull.Below.bind (h : Pull.Below x y) (hk : ∀ a, Pull.Below (k a) (l a)) :
    Pull.Below (x >>= k) (y >>= l) := fun p o ho => by
  rw [ExceptT.run_bind, StateT.run_bind] at ho ⊢
  obtain ⟨⟨r, p'⟩, hx, ho⟩ := Option.bind_eq_some_iff.1 ho
  rw [h p _ hx]
  cases r with
  | ok a => exact hk a p' o ho
  | error e => exact ho

variable {outputs outputs' : FunctionId → Pull (List Value)}

theorem inputValue_below (h : ∀ g, (outputs g).Below (outputs' g)) (input : Pin) :
    (inputValue outputs input).Below (inputValue outputs' input) := by
  rw [inputValue, inputValue]
  refine Pull.Below.refl.bind fun p => ?_
  split
  · exact .refl
  · exact (h _).bind fun _ => .refl
  · exact .refl

theorem inputValues_below (h : ∀ g, (outputs g).Below (outputs' g)) (id : FunctionId)
    (count first : Nat) :
    (inputValues outputs id count first).Below (inputValues outputs' id count first) := by
  induction count generalizing first with
  | zero => exact .refl
  | succ count ih =>
    rw [inputValues, inputValues]
    exact (inputValue_below h _).bind fun v => (ih (first + 1)).bind fun vs => .refl

/-- More fuel changes no outcome. -/
theorem pull_below_succ (fuel : Nat) (id : FunctionId) :
    (pull fuel id).Below (pull (fuel + 1) id) := by
  induction fuel generalizing id with
  | zero => exact fun p o h => absurd h nofun
  | succ fuel ih =>
    rw [pull, pull]
    refine Pull.Below.refl.bind fun p => ?_
    cases p.done.lookup id with
    | some outs => exact .refl
    | none =>
      dsimp only
      split
      · exact Pull.Below.refl.bind fun _ => Pull.Below.refl.bind fun _ =>
          Pull.Below.refl.bind fun i => (inputValues_below ih _ _ _).bind fun _ => .refl
      · exact Pull.Below.refl.bind fun _ => Pull.Below.refl.bind fun i =>
          (inputValues_below ih _ _ _).bind fun _ => .refl

theorem pull_below {fuel fuel' : Nat} (h : fuel ≤ fuel') (id : FunctionId) :
    (pull fuel id).Below (pull fuel' id) := by
  induction h with
  | refl => exact .refl
  | step _ ih => exact fun p o ho => pull_below_succ _ id p o (ih p o ho)

end Fuel

/-! ### Cycles -/

section Cycles

variable {α β : Type}

theorem run_bind_ok {x : ExceptT Error Option α} {k : α → ExceptT Error Option β} {b : β}
    (h : (x >>= k).run = some (.ok b)) :
    ∃ a, x.run = some (.ok a) ∧ (k a).run = some (.ok b) := by
  rw [ExceptT.run_bind] at h
  obtain ⟨r, hx, hk⟩ := Option.bind_eq_some_iff.1 h
  cases r with
  | ok a => exact ⟨a, hx, hk⟩
  | error e => exact absurd hk nofun

theorem forall₂_of_mapM_run {x : α → ExceptT Error Option β} {as : List α} {bs : List β}
    (h : (as.mapM x).run = some (.ok bs)) :
    List.Forall₂ (fun a b => (x a).run = some (.ok b)) as bs := by
  induction as generalizing bs with
  | nil =>
    obtain rfl : [] = bs := Except.ok.inj (Option.some.inj h)
    exact .nil
  | cons a as ih =>
    rw [List.mapM_cons] at h
    obtain ⟨b, hb, h⟩ := run_bind_ok h
    obtain ⟨bs', hbs, h⟩ := run_bind_ok h
    obtain rfl : b :: bs' = bs := Except.ok.inj (Option.some.inj h)
    exact .cons hb (ih hbs)

/-- What is done for each number below `k` gives a value for each. -/
theorem exists_of_mapM_range {x : Nat → ExceptT Error Option β} {k n : Nat} {bs : List β}
    (h : ((List.range k).mapM x).run = some (.ok bs)) (hn : n < k) :
    ∃ b, bs[n]? = some b ∧ (x n).run = some (.ok b) := by
  have hall := forall₂_of_mapM_run h
  have hlt : n < (List.range k).length := by rwa [List.length_range]
  have hlt' : n < bs.length := hall.length_eq ▸ hlt
  have hget := hall.get hlt hlt'
  rw [List.get_eq_getElem, List.getElem_range] at hget
  exact ⟨bs[n], List.getElem?_eq_getElem hlt', hget⟩

/-- All chains of needs end that start from a function of which plain evaluation
    gives outputs. -/
theorem acc_of_plain (hwired : c.WellWired) {fuel : Nat}
    (h : (c.plain fuel f).run = some (.ok outs)) : Acc (fun g f => c.Needs f g) f := by
  induction fuel generalizing f outs with
  | zero => exact absurd h nofun
  | succ fuel ih =>
    refine Acc.intro f fun g hg => ?_
    obtain ⟨n, m, hs⟩ := hg
    obtain ⟨i, hi, hn⟩ := hwired _ _ hs
    rw [plain_succ hi] at h
    obtain ⟨values, hvalues, -⟩ := run_bind_ok h
    obtain ⟨v, -, hv⟩ := exists_of_mapM_range hvalues hn
    simp only [delivered, hs] at hv
    obtain ⟨outs', houts, -⟩ := run_bind_ok hv
    exact ih houts

/-- A function from which all chains of needs end is upstream of no cycle. -/
theorem acyclic_of_acc (h : Acc (fun g f => c.Needs f g) f) : c.Acyclic f := fun _ hg =>
  not_transGen_of_acc (acc_of_reflTransGen h hg)

end Cycles

/-! ### Outcomes -/

theorem ready_start : Ready c ⟨c, [], []⟩ where
  sources := rfl
  kept _ _ := rfl
  done _ _ h := absurd h nofun
  closed _ _ h := absurd h fun ⟨_, h⟩ => absurd h nofun
  nodup := List.nodup_nil
  lt _ h := absurd h List.not_mem_nil
  undone _ h := absurd h List.not_mem_nil

/-- What is upstream of a function that has been done has been done. -/
theorem Holds.done_of_upstream (h : Holds c p) (hf : p.Done f) (hg : c.Upstream f g) :
    p.Done g := by
  induction hg with
  | refl => exact hf
  | tail _ hg ih => exact h.closed _ _ ih hg

/-- A fault that says so is a cycle. -/
theorem Fault.cycle (h : Fault c f (.wiring (.dependsOnItself g))) :
    Relation.TransGen c.Needs f f := by
  cases h with
  | dependsOnItself h => exact h
  | evaluation hi hd he => exact absurd he (Instance.noWiring_evaluate _ _ _)

theorem isEvaluation_of_serves (hwired : c.WellWired)
    (h : Serves c target (c.plain · target) (· = target) ⟨c, [], []⟩ r p) :
    IsEvaluation c target r p := by
  have hfault (e) (he : r = .error e) : ∃ f, c.Upstream target f ∧ ¬p.Done f ∧ Fault c f e :=
    (h.error e he).1
  have hupstream (f) (hf : p.Done f) : c.Upstream target f :=
    (h.upstream f hf).resolve_left fun ⟨_, h⟩ => absurd h nofun
  constructor
  case settles =>
    intro hacyclic
    cases r with
    | ok outs => exact (h.ok outs rfl).2.1
    | error e => exact (h.error e rfl).2 hacyclic
  case ne_dependsOnItself =>
    intro hacyclic f hr
    obtain ⟨g, hg, -, hfault⟩ := hfault _ hr
    exact hacyclic g hg hfault.cycle
  case cyclic =>
    intro hcyclic
    cases r with
    | ok outs =>
      obtain ⟨-, ⟨n, hn⟩, -⟩ := h.ok outs rfl
      exact absurd (acyclic_of_acc (acc_of_plain hwired (hn n (Nat.le_refl n)))) hcyclic
    | error e => exact ⟨e, rfl⟩
  case done =>
    intro f hf
    obtain ⟨outs, ho⟩ := hf
    obtain ⟨i, values, e, he, -, hi⟩ := h.holds.done f outs ho
    exact ⟨hupstream f ⟨outs, ho⟩, i, values, e, he, hi⟩
  case kept => exact h.holds.kept
  case all => exact fun outs hr f hf => h.holds.done_of_upstream ((h.ok outs hr).2.2 target rfl) hf
  case fault => exact hfault
  case sources => exact h.holds.sources

/-- Evaluating a function has an outcome, which more fuel does not change. -/
theorem exists_pull_eq (hwired : c.WellWired) (target : FunctionId) : ∃ r p,
    (∀ fuel ≥ c.size + 2, (pull fuel target).run.run ⟨c, [], []⟩ = some (r, p)) ∧
      c.evaluate target = (r, p.circuit) ∧ IsEvaluation c target r p := by
  obtain ⟨r, p, hrun, h⟩ := pull_ends hwired ready_start
    (fun f hf => absurd hf List.not_mem_nil) (Nat.le_refl (c.size + 2))
  refine ⟨r, p, fun fuel hfuel => pull_below hfuel target _ _ hrun, ?_,
    isEvaluation_of_serves hwired h⟩
  rw [evaluate, hrun]

/-! ### Reachable circuits -/

/-- The circuits that can be made. -/
inductive Reachable : Circuit → Prop where
  | empty : Reachable empty
  | add {c : Circuit} (h : Reachable c) (f : Function) : Reachable (c.add f).1
  | connect {c c' : Circuit} {output input : Pin} (h : Reachable c)
    (hc : c.connect output input = .ok c') : Reachable c'
  | feed {c c' : Circuit} {input : Pin} {v : Value} (h : Reachable c)
    (hc : c.feed input v = .ok c') : Reachable c'
  | evaluate {c : Circuit} (h : Reachable c) (target : FunctionId) :
    Reachable (c.evaluate target).2
  | duplicate {c : Circuit} (h : Reachable c) (preserve : Bool) : Reachable (c.duplicate preserve)

theorem IsEvaluation.function_eq (h : IsEvaluation c target r p) {i : Instance}
    (hi : c.instances[f]? = some i) :
    ∃ i' : Instance, p.circuit.instances[f]? = some i' ∧ i'.function = i.function := by
  by_cases hf : p.Done f
  · obtain ⟨-, j, _, _, he, hj⟩ := h.done f hf
    obtain rfl := Option.some.inj (hi.symm.trans he.instance_eq)
    exact ⟨_, hj, rfl⟩
  · exact ⟨i, (h.kept f hf).trans hi, rfl⟩

theorem WellWired.evaluate (h : c.WellWired) (target : FunctionId) :
    (c.evaluate target).2.WellWired := by
  obtain ⟨r, p, -, heq, hp⟩ := exists_pull_eq h target
  rw [heq]
  exact WellWired.congr h hp.sources fun f i hi => hp.function_eq hi

theorem Reachable.wellWired (h : c.Reachable) : c.WellWired := by
  induction h with
  | empty => exact wellWired_empty
  | add _ f ih => exact ih.add f
  | connect _ hc ih => exact ih.connect hc
  | feed _ hc ih => exact ih.feed hc
  | evaluate _ target ih => exact ih.evaluate target
  | duplicate _ preserve ih => exact ih.duplicate preserve

theorem Reachable.wire {output input : Pin} (h : c.Reachable)
    (ho : c.checkOutput output = .ok ()) (hi : c.checkInput input = .ok ()) :
    (c.setSource input (.wire output)).Reachable :=
  h.connect (by rw [Circuit.connect, ho, hi]; rfl)

theorem Reachable.fed {input : Pin} {v : Value} (h : c.Reachable)
    (hi : c.checkInput input = .ok ()) : (c.setSource input (.fed v)).Reachable :=
  h.feed (by rw [Circuit.feed, hi]; rfl)

/-- Evaluating a function of a circuit ends, and is right. -/
theorem exists_isEvaluation (h : c.Reachable) (target : FunctionId) : ∃ r p,
    (∀ fuel ≥ c.size + 2, (pull fuel target).run.run ⟨c, [], []⟩ = some (r, p)) ∧
      c.evaluate target = (r, p.circuit) ∧ IsEvaluation c target r p :=
  exists_pull_eq h.wellWired target

/-- A sum of two copies of the same value. -/
def diamond : Circuit :=
  ((((empty.add (.fork 2)).1.add (.nary .add 2)).1.setSource ⟨1, 0⟩ (.wire ⟨0, 0⟩)).setSource
    ⟨1, 1⟩ (.wire ⟨0, 1⟩)).setSource ⟨0, 0⟩ (.fed (.int 2))

theorem reachable_diamond : diamond.Reachable :=
  ((((Reachable.empty.add (.fork 2)).add (.nary .add 2)).wire (by rfl) (by rfl)).wire (by rfl)
    (by rfl)).fed (by rfl)

theorem isEvaluation_diamond : diamond.Reachable ∧ ∃ r p,
    diamond.evaluate 1 = (r, p.circuit) ∧ IsEvaluation diamond 1 r p ∧ r = .ok [.int 4] := by
  obtain ⟨r, p, -, heq, h⟩ := exists_isEvaluation reachable_diamond 1
  have hr : (diamond.evaluate 1).1 = .ok [.int 4] := by rfl
  exact ⟨reachable_diamond, r, p, heq, h, by rw [← hr, heq]⟩

end Lineage.Circuit
