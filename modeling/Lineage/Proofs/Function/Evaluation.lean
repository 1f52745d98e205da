import Lineage.Function.Evaluation
import Lineage.Proofs.Outcomes

/-!
# Outcomes of evaluations

A function fails for what it is given: the number, the kinds or the values of its
inputs. It knows nothing of the circuit that it is part of, so none of its errors
is one of wiring (`Function.noWiring_evaluate`). If it does not fail, it leaves a
witness of as many inputs as it has (`Function.inArity_witness`), and returns as many
outputs as it declares, unless it is from elsewhere (`Function.length_outputs`).
-/

namespace Lineage

variable {α β : Type} {x : Except Error α} {f : α → Except Error β}

/-- The outcome is no error of wiring. -/
def NoWiring (x : Except Error α) : Prop := ∀ fault, x ≠ .error (.wiring fault)

theorem noWiring_ok {a : α} : NoWiring (.ok a : Except Error α) := fun _ => nofun

theorem NoWiring.bind (hx : NoWiring x) (hf : ∀ a, NoWiring (f a)) : NoWiring (x >>= f) := by
  cases x with
  | error e => exact fun fault he => hx fault (congrArg _ (Except.error.inj he))
  | ok a => exact hf a

theorem noWiring_foldlM {g : β → α → Except Error β} (hg : ∀ b a, NoWiring (g b a)) (b : β)
    (as : List α) : NoWiring (as.foldlM g b) := by
  induction as generalizing b with
  | nil => exact noWiring_ok
  | cons a as ih =>
    rw [List.foldlM_cons]
    exact (hg b a).bind fun b' => ih b'

theorem noWiring_mapM (hf : ∀ a, NoWiring (f a)) (as : List α) : NoWiring (as.mapM f) := by
  induction as with
  | nil => exact noWiring_ok
  | cons a as ih =>
    rw [List.mapM_cons]
    exact (hf a).bind fun _ => ih.bind fun _ => noWiring_ok

theorem Operator.noWiring_expect {name : String} {kind : Kind} {view : Value → Option α}
    {v : Value} : NoWiring (expect name kind view v) := by
  rw [expect]
  split <;> exact fun _ => nofun

theorem Operator.noWiring_evaluate (op : Operator) (name : String) (inputs : List Value) :
    NoWiring (op.evaluate name inputs) := by
  cases op with
  | add =>
    refine (noWiring_foldlM (fun sum v => noWiring_expect.bind fun i => ?_) 0 inputs).bind
      fun _ => noWiring_ok
    split <;> exact fun _ => nofun
  | and =>
    exact (noWiring_foldlM (fun _ _ => noWiring_expect.bind fun _ => noWiring_ok) true
      inputs).bind fun _ => noWiring_ok
  | or =>
    exact (noWiring_foldlM (fun _ _ => noWiring_expect.bind fun _ => noWiring_ok) false
      inputs).bind fun _ => noWiring_ok
  | concat =>
    exact (noWiring_foldlM (fun _ _ => noWiring_expect.bind fun _ => noWiring_ok) ""
      inputs).bind fun _ => noWiring_ok

namespace Function

theorem noWiring_checkArity (f : Function) (inputs : List Value) :
    NoWiring (f.checkArity inputs) := by
  rw [checkArity]
  split <;> exact fun _ => nofun

theorem noWiring_onlyInput (f : Function) (kind : Kind) (view : Value → Option α)
    (inputs : List Value) : NoWiring (f.onlyInput kind view inputs) := by
  rw [onlyInput.eq_def]
  split
  · exact Operator.noWiring_expect
  · exact fun _ => nofun

/-- A function fails for what it is given alone. -/
theorem noWiring_evaluate (f : Function) (inputs : List Value) : NoWiring (f.evaluate inputs) := by
  induction f generalizing inputs with
  | nary op arity =>
    rw [evaluate]
    exact (noWiring_checkArity _ _).bind fun _ =>
      (op.noWiring_evaluate _ _).bind fun _ => noWiring_ok
  | quantifier q =>
    rw [evaluate]
    exact (noWiring_onlyInput _ _ _ _).bind fun _ => noWiring_ok
  | find pattern =>
    rw [evaluate]
    refine (noWiring_onlyInput _ _ _ _).bind fun s => ?_
    split <;> exact noWiring_ok
  | fork arity =>
    rw [evaluate.eq_def]
    dsimp only
    split <;> exact fun _ => nofun
  | applyToAll template ih =>
    rw [evaluate]
    exact (noWiring_onlyInput _ _ _ _).bind fun list =>
      (noWiring_mapM (fun v => ih [v]) list).bind fun _ => noWiring_ok
  | foreign g =>
    rw [evaluate]
    exact (noWiring_checkArity _ _).bind fun _ =>
      NoWiring.bind (g.outputs_ne_wiring inputs) fun _ => noWiring_ok

end Function

/-- A template is accepted just if it has one input and declares one output. -/
theorem Function.overElements_eq_ok_iff {template f : Function} : overElements template = .ok f ↔
    template.inArity = 1 ∧ template.outArity = 1 ∧ f = applyToAll template := by
  rw [overElements]
  split
  · next hin => exact ⟨nofun, fun h => absurd h.1 hin⟩
  · next hin =>
    split
    · next hout => exact ⟨nofun, fun h => absurd h.2.1 hout⟩
    · next hout =>
      exact ⟨fun h => ⟨not_not.1 hin, not_not.1 hout, (Except.ok.inj h).symm⟩, fun h => h.2.2 ▸ rfl⟩

/-- What an evaluation gives is as the arities of the function say, but for the outputs of a
    function from elsewhere. -/
theorem Function.arities_evaluate {f : Function} {inputs : List Value} {e : Evaluation}
    (h : f.evaluate inputs = .ok e) : e.witness.inArity = f.inArity ∧
      ((∀ g, f ≠ foreign g) → e.outputs.length = f.outArity) := by
  cases f with
  | nary op arity =>
    rw [evaluate] at h
    obtain ⟨-, -, h⟩ := exists_of_bind_ok h
    obtain ⟨output, -, h⟩ := exists_of_bind_ok h
    exact Except.ok.inj h ▸ ⟨rfl, fun _ => rfl⟩
  | quantifier q =>
    rw [evaluate] at h
    obtain ⟨list, -, h⟩ := exists_of_bind_ok h
    exact Except.ok.inj h ▸ ⟨rfl, fun _ => rfl⟩
  | find pattern =>
    rw [evaluate] at h
    obtain ⟨s, -, h⟩ := exists_of_bind_ok h
    split at h <;> exact Except.ok.inj h ▸ ⟨rfl, fun _ => rfl⟩
  | fork arity =>
    rw [evaluate.eq_def] at h
    dsimp only at h
    split at h
    · exact Except.ok.inj h ▸ ⟨rfl, fun _ => List.length_replicate⟩
    · exact absurd h nofun
  | applyToAll template =>
    rw [evaluate] at h
    obtain ⟨list, -, h⟩ := exists_of_bind_ok h
    obtain ⟨evaluations, -, h⟩ := exists_of_bind_ok h
    exact Except.ok.inj h ▸ ⟨rfl, fun _ => rfl⟩
  | foreign g =>
    rw [evaluate] at h
    obtain ⟨-, -, h⟩ := exists_of_bind_ok h
    obtain ⟨outputs, -, h⟩ := exists_of_bind_ok h
    exact Except.ok.inj h ▸ ⟨rfl, fun hg => absurd rfl (hg g)⟩

/-- The witness of an evaluation is one of as many inputs as the function has. -/
theorem Function.inArity_witness {f : Function} {inputs : List Value} {e : Evaluation}
    (h : f.evaluate inputs = .ok e) : e.witness.inArity = f.inArity :=
  (arities_evaluate h).1

/-- Only a function from elsewhere may return another number of outputs than it declares. -/
theorem Function.length_outputs {f : Function} {inputs : List Value} {e : Evaluation}
    (hf : ∀ g, f ≠ foreign g)
    (h : f.evaluate inputs = .ok e) : e.outputs.length = f.outArity :=
  (arities_evaluate h).2 hf

/-- An instance fails as its function does, or for the number of its outputs. -/
theorem Instance.noWiring_evaluate (i : Instance) (inputs : List Value) :
    NoWiring (i.evaluate inputs) :=
  (i.function.noWiring_evaluate inputs).bind fun e => by
    split <;> exact fun _ => nofun

end Lineage
