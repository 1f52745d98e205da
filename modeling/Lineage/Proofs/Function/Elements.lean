import Lineage.Proofs.Function.Evaluation
import Lineage.Proofs.Outline.Answer

/-!
# Functions over elements

A template is applied to the elements of a list in order. It may fail on one of
them, and then so does the function. Otherwise each element has a witness, and the
outputs are those for the elements, one after another: as many as there are
elements if the template returns one for each (`Elementwise`), as a template
declares to do. All but those from elsewhere do so
(`Elementwise.evaluate_of_ne_foreign`), but nothing holds a template to it.

A question about an element is put to its witness alone, so what the other
elements are makes no difference to the answer (`Witness.answer_applied_congr`).
-/

namespace Lineage

variable {template f : Function} {vs vs' : List Value} {e e' : Evaluation} {n : Nat}

/-- What comes of applying a template of one output to each element of a list. -/
inductive Elementwise (template : Function) (vs : List Value) : Except Error Evaluation → Prop where
  /-- The template fails on an element, and on none before it. -/
  | failed {before after : List Value} {v : Value} {error : Error}
      (elements : vs = before ++ v :: after)
      (succeeds : ∀ u ∈ before, ∃ e, template.evaluate [u] = .ok e)
      (fails : template.evaluate [v] = .error error) : Elementwise template vs (.error error)
  /-- The template returns no or several outputs for an element. -/
  | miscounted {v : Value} {e : Evaluation} {name : String} {expected actual : Nat} (mem : v ∈ vs)
      (succeeds : template.evaluate [v] = .ok e) (outputs : e.outputs.length ≠ 1) :
      Elementwise template vs (.error (.arity name expected actual))
  /-- There are an output and a witness for each element. -/
  | done {results : List (Value × Witness)}
      (succeeds : List.Forall₂ (fun v r => template.evaluate [v] = .ok ⟨[r.1], r.2⟩) vs results) :
      Elementwise template vs
        (.ok ⟨[.list (results.map Prod.fst)], .applied (results.map Prod.snd)⟩)

namespace Function

/-! ### Evaluation -/

theorem evaluate_applyToAll : (applyToAll template).evaluate [.list vs] =
    (vs.mapM fun v => template.evaluate [v]) >>= fun es =>
      .ok ⟨[.list (es.flatMap Evaluation.outputs)], .applied (es.map Evaluation.witness)⟩ := by
  rw [evaluate]
  rfl

/-- The function succeeds if the template does on each element. -/
theorem evaluate_applyToAll_eq_ok_iff : (applyToAll template).evaluate [.list vs] = .ok e ↔
    ∃ es, List.Forall₂ (fun v e => template.evaluate [v] = .ok e) vs es ∧
      e = ⟨[.list (es.flatMap Evaluation.outputs)], .applied (es.map Evaluation.witness)⟩ := by
  rw [evaluate_applyToAll]
  constructor
  · intro h
    obtain ⟨es, hes, h⟩ := exists_of_bind_ok h
    exact ⟨es, mapM_eq_ok_iff.1 hes, (Except.ok.inj h).symm⟩
  · rintro ⟨es, hes, rfl⟩
    rw [mapM_eq_ok_iff.2 hes]
    rfl

/-- The function fails as the template does on the first element that it fails on. -/
theorem exists_of_evaluate_applyToAll_error {error : Error}
    (h : (applyToAll template).evaluate [.list vs] = .error error) :
    ∃ before v after, vs = before ++ v :: after ∧
      (∀ u ∈ before, ∃ e, template.evaluate [u] = .ok e) ∧
      template.evaluate [v] = .error error := by
  rw [evaluate_applyToAll] at h
  rcases error_or_error_of_bind h with h | ⟨es, -, h⟩
  · exact exists_of_mapM_error h
  · exact absurd h nofun

end Function

namespace Elementwise

theorem of_error {error : Error}
    (h : (Function.applyToAll template).evaluate [.list vs] = .error error) :
    Elementwise template vs (.error error) := by
  obtain ⟨before, v, after, rfl, hbefore, hv⟩ := Function.exists_of_evaluate_applyToAll_error h
  exact .failed rfl hbefore hv

/-- The outcome is right if the template returns one output for each element. -/
theorem evaluate_of_forall₂ {results : List (Value × Witness)}
    (h : List.Forall₂ (fun v r => template.evaluate [v] = .ok ⟨[r.1], r.2⟩) vs results) :
    (Function.applyToAll template).evaluate [.list vs] =
      .ok ⟨[.list (results.map Prod.fst)], .applied (results.map Prod.snd)⟩ := by
  refine Function.evaluate_applyToAll_eq_ok_iff.2
    ⟨results.map fun r => ⟨[r.1], r.2⟩, List.forall₂_map_right_iff.2 h, ?_⟩
  simp only [List.flatMap_map, List.map_map, ← List.map_eq_flatMap]
  rfl

/-- The outcome is right just if the template fails on an element, or returns one output for
    each. -/
theorem evaluate_iff :
    Elementwise template vs ((Function.applyToAll template).evaluate [.list vs]) ↔
    (∃ v ∈ vs, ∃ error, template.evaluate [v] = .error error) ∨
      ∀ v ∈ vs, ∀ e, template.evaluate [v] = .ok e → e.outputs.length = 1 := by
  constructor
  · intro h
    -- An error, of whatever kind, is one of the template: the function makes none of its own.
    generalize hx : (Function.applyToAll template).evaluate [.list vs] = x at h
    have hfails {error : Error} (he : x = .error error) :
        ∃ v ∈ vs, ∃ error, template.evaluate [v] = .error error := by
      obtain ⟨before, v, after, rfl, -, hv⟩ :=
        Function.exists_of_evaluate_applyToAll_error (hx.trans he)
      exact ⟨v, List.mem_append_right _ List.mem_cons_self, error, hv⟩
    cases h with
    | failed | miscounted => exact .inl (hfails rfl)
    | done hresults =>
      refine .inr fun v hv e he => ?_
      obtain ⟨r, hr⟩ := exists_forall₂_iff.1 ⟨_, hresults⟩ v hv
      obtain rfl := Except.ok.inj (he.symm.trans hr)
      rfl
  · intro h
    cases hx : (Function.applyToAll template).evaluate [.list vs] with
    | error error => exact of_error hx
    | ok e =>
      -- No element fails, so the template returns one output for each.
      obtain ⟨es, hes, rfl⟩ := Function.evaluate_applyToAll_eq_ok_iff.1 hx
      have hok := exists_forall₂_iff.1 ⟨es, hes⟩
      have hone (v : Value) (hv : v ∈ vs) :
          ∃ r : Value × Witness, template.evaluate [v] = .ok ⟨[r.1], r.2⟩ := by
        obtain ⟨⟨outputs, w⟩, hv'⟩ := hok v hv
        rcases h with ⟨u, hu, error, hfail⟩ | hcount
        · obtain ⟨e, he⟩ := hok u hu
          exact absurd (hfail.symm.trans he) nofun
        · obtain ⟨o, rfl⟩ := List.length_eq_one_iff.1 (hcount v hv _ hv')
          exact ⟨(o, w), hv'⟩
      obtain ⟨results, hresults⟩ := exists_forall₂_iff.2 hone
      rw [← hx, evaluate_of_forall₂ hresults]
      exact .done hresults

/-- The outcome is right for every template that is accepted, unless it is from elsewhere. -/
theorem evaluate_of_ne_foreign (h : template.overElements = .ok f)
    (hforeign : ∀ g, template ≠ .foreign g) : Elementwise template vs (f.evaluate [.list vs]) := by
  obtain ⟨-, hout, rfl⟩ := Function.overElements_eq_ok_iff.1 h
  refine evaluate_iff.2 (.inr fun v _ e he => ?_)
  rw [Function.length_outputs hforeign he, hout]

/-- An output is that for the element in its place, whatever the other elements are. -/
theorem getElem?_outputs (h : Elementwise template vs (.ok e))
    (h' : Elementwise template vs' (.ok e')) (hn : vs'[n]? = vs[n]?) :
    ∃ outputs outputs' : List Value, e.outputs = [.list outputs] ∧
      e'.outputs = [.list outputs'] ∧ outputs'[n]? = outputs[n]? := by
  cases h with
  | @done results hresults =>
    cases h' with
    | @done results' hresults' =>
      have hr : results'[n]? = results[n]? := by
        refine getElem?_congr_of_forall₂ (fun v r r' hr hr' => ?_) hresults hresults' hn
        obtain ⟨ho, hw⟩ := Evaluation.mk.inj (Except.ok.inj (hr.symm.trans hr'))
        exact Prod.ext (List.singleton_inj.1 ho) hw
      exact ⟨_, _, rfl, rfl, by rw [List.getElem?_map, List.getElem?_map, hr]⟩

end Elementwise

/-! ### Answers -/

namespace Function

/-- Other elements make no difference to the answers about an element, if the template succeeds on
    them. -/
theorem exists_evaluate_applyToAll (he : (applyToAll template).evaluate [.list vs] = .ok e)
    (hn : vs'[n]? = vs[n]?) (hvs' : ∀ v ∈ vs', ∃ e', template.evaluate [v] = .ok e') :
    ∃ e', (applyToAll template).evaluate [.list vs'] = .ok e' ∧ ∀ query r subject root k,
      Witness.answer query (Designator.nest [.element n] r) subject root k e'.witness =
        Witness.answer query (Designator.nest [.element n] r) subject root k e.witness := by
  obtain ⟨es, hes, rfl⟩ := evaluate_applyToAll_eq_ok_iff.1 he
  obtain ⟨es', hes'⟩ := exists_forall₂_iff.2 hvs'
  have heq : es'[n]? = es[n]? := getElem?_congr_of_forall₂
    (fun _ _ _ h h' => Except.ok.inj (h.symm.trans h')) hes hes' hn
  refine ⟨_, evaluate_applyToAll_eq_ok_iff.2 ⟨es', hes', rfl⟩, fun query r subject root k => ?_⟩
  exact Witness.answer_applied_congr (by rw [List.getElem?_map, List.getElem?_map, heq]) ..

/-- A function over elements does what its template does on each of them just if the template fails
    on an element, or returns one output for each. Other elements make no difference to what is
    answered about an element, nor to the output for it. -/
theorem elementwise_iff (h : template.overElements = .ok f) (vs : List Value) :
    (Elementwise template vs (f.evaluate [.list vs]) ↔
      (∃ v ∈ vs, ∃ error, template.evaluate [v] = .error error) ∨
        ∀ v ∈ vs, ∀ e, template.evaluate [v] = .ok e → e.outputs.length = 1) ∧
    ∀ e, f.evaluate [.list vs] = .ok e → ∀ (vs' : List Value) (n : Nat), vs'[n]? = vs[n]? →
      (∀ v ∈ vs', ∃ e', template.evaluate [v] = .ok e') →
      ∃ e', f.evaluate [.list vs'] = .ok e' ∧
        (∀ query r subject root k,
          Witness.answer query (Designator.nest [.element n] r) subject root k e'.witness =
            Witness.answer query (Designator.nest [.element n] r) subject root k e.witness) ∧
        (Elementwise template vs (.ok e) → Elementwise template vs' (.ok e') →
          ∃ outputs outputs' : List Value, e.outputs = [.list outputs] ∧
            e'.outputs = [.list outputs'] ∧ outputs'[n]? = outputs[n]?) := by
  obtain ⟨-, -, rfl⟩ := overElements_eq_ok_iff.1 h
  refine ⟨Elementwise.evaluate_iff, fun e he vs' n hn hvs' => ?_⟩
  obtain ⟨e', he', hanswers⟩ := exists_evaluate_applyToAll he hn hvs'
  exact ⟨e', he', hanswers, fun hvs hvs' => hvs.getElem?_outputs hvs' hn⟩

/-- A quantifier over each of two lists. -/
theorem elementwise_forAll :
    Elementwise (quantifier .forAll) [.list [.bool true, .bool false], .list []]
      (.ok ⟨[.list [.bool false, .bool true]], .applied [.quantified 2 [1], .quantified 0 []]⟩) := by
  have h : overElements (quantifier .forAll) = .ok (applyToAll (quantifier .forAll)) := rfl
  refine (elementwise_iff h [.list [.bool true, .bool false], .list []]).1.2 (.inr ?_)
  intro v hv e he
  rw [List.mem_pair] at hv
  rcases hv with rfl | rfl <;> exact Except.ok.inj he ▸ rfl

/-- A template that declares one output and returns two is accepted; its function does not fail, but
    gives a list of two for one element. -/
theorem not_elementwise_two : overElements (stub 1 1 [.int 1, .int 2]) =
      .ok (applyToAll (stub 1 1 [.int 1, .int 2])) ∧
    ¬Elementwise (stub 1 1 [.int 1, .int 2]) [.int 0]
      ((applyToAll (stub 1 1 [.int 1, .int 2])).evaluate [.list [.int 0]]) := by
  refine ⟨rfl, fun h => ?_⟩
  have hx : (applyToAll (stub 1 1 [.int 1, .int 2])).evaluate [.list [.int 0]] =
    .ok ⟨[.list [.int 1, .int 2]], .applied [.linkAll 1]⟩ := rfl
  generalize (applyToAll (stub 1 1 [.int 1, .int 2])).evaluate [.list [.int 0]] = x at h hx
  cases h with
  | failed | miscounted => exact absurd hx nofun
  | @done results hresults =>
    obtain ⟨houtputs, -⟩ := Evaluation.mk.inj (Except.ok.inj hx)
    have hlength := congrArg List.length (Value.list.inj (List.singleton_inj.1 houtputs))
    rw [List.length_map, ← hresults.length_eq] at hlength
    exact absurd hlength (by decide)

end Function

end Lineage
