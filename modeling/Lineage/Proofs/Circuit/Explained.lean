import Lineage.Proofs.Circuit.Evaluation
import Lineage.Proofs.Trace.Leaves

/-!
# Explanations of evaluations

Right after a function has been evaluated, its outputs are explained down to what
was fed to the circuit (`exists_tree_of_evaluate`): the trace ends, there is no
cycle in it, and it stops nowhere else, but for functions without inputs, which
AND nodes without children stand for.

This is because a success leaves the circuit `Supplied`: no chain of needs goes on
for ever, each function upstream has a witness of as many inputs as the function,
and each input takes its value from somewhere.
-/

namespace Lineage.Circuit

variable {c : Circuit} {target f g : FunctionId} {query : Query} {key key' : ObjectKey}
  {outs : List Value} {d : Designator} {n : Nat}

/-- What is upstream of `target` has been evaluated as it is now wired. -/
structure Supplied (c : Circuit) (target : FunctionId) : Prop where
  acc : Acc (fun g f => c.Needs f g) target
  witness : ∀ f, c.Upstream target f → ∃ i w, c.instances[f]? = some i ∧ i.last = some w ∧
    w.inArity = i.function.inArity
  source : ∀ (f : FunctionId) (i : Instance) (n : Nat), c.Upstream target f →
    c.instances[f]? = some i → n < i.function.inArity → ∃ source, c.source? ⟨f, n⟩ = some source

theorem Evaluated.exists_source {i : Instance} {values : List Value} {e : Evaluation}
    (h : Evaluated c f i values e) (hn : n < i.function.inArity) :
    ∃ source, c.source? ⟨f, n⟩ = some source := by
  obtain ⟨m, hm⟩ := h.deliveries
  obtain ⟨v, -, hv⟩ := exists_of_mapM_range (hm m (Nat.le_refl m)) hn
  cases hs : c.source? ⟨f, n⟩ with
  | none =>
    simp only [delivered, hs] at hv
    cases hv
  | some source => exact ⟨source, rfl⟩

/-- A success leaves everything upstream evaluated. -/
theorem supplied_of_evaluate (hwired : c.WellWired) (he : (c.evaluate target).1 = .ok outs) :
    (c.evaluate target).2.Supplied target := by
  obtain ⟨r, p, -, heq, h⟩ := exists_pull_eq hwired target
  rw [heq] at he ⊢
  have hsource (input : Pin) : p.circuit.source? input = c.source? input := by
    rw [source?, h.sources, source?]
  have hneeds : p.circuit.Needs = c.Needs := by
    funext f g
    simp only [Needs, hsource]
  have hdone (f) (hf : p.circuit.Upstream target f) : p.Done f := by
    rw [Upstream, hneeds] at hf
    exact h.all outs he f hf
  constructor
  case acc =>
    obtain ⟨-, i, values, e, hev, -⟩ := h.done target (hdone target .refl)
    obtain ⟨n, hn⟩ := hev.settles
    rw [hneeds]
    exact acc_of_plain hwired (hn n (Nat.le_refl n))
  case witness =>
    intro f hf
    obtain ⟨-, i, values, e, hev, hi⟩ := h.done f (hdone f hf)
    exact ⟨_, e.witness, hi, rfl, Function.inArity_witness hev.evaluate⟩
  case source =>
    intro f i' n hf hi' hn
    obtain ⟨-, i, values, e, hev, hi⟩ := h.done f (hdone f hf)
    obtain rfl := Option.some.inj (hi'.symm.trans hi)
    rw [hsource]
    exact hev.exists_source hn

/-! ### Pins that a trace meets -/

/-- A part of an output, or of an input that there is, of a function upstream. -/
structure IsPin (c : Circuit) (target : FunctionId) (key : ObjectKey) : Prop where
  upstream : c.Upstream target key.subject
  head : (∃ n, key.designator.head = .output n) ∨ ∃ n i, key.designator.head = .input n ∧
    c.instances[key.subject]? = some i ∧ n < i.function.inArity

theorem witness?_eq {i : Instance} {w : Witness} (hi : c.instances[f]? = some i)
    (hw : i.last = some w) : c.wiring.witness f = some w :=
  Option.bind_eq_some_iff.2 ⟨i, hi, hw⟩

/-- An output is explained by inputs of its function. -/
theorem Supplied.of_leads_output (hs : c.Supplied target) (hf : c.Upstream target key.subject)
    (ho : key.designator.head = .output n) (hleads : c.wiring.Leads query key key') :
    key'.subject = key.subject ∧ ∃ n i, key'.designator.head = .input n ∧
      c.instances[key.subject]? = some i ∧ n < i.function.inArity := by
  obtain ⟨i, w, hi, hw, harity⟩ := hs.witness _ hf
  obtain ⟨_, w', -, hw', hd, hsubject⟩ | ⟨_, _, hi', -⟩ := hleads.cases
  · obtain rfl := Option.some.inj ((witness?_eq hi hw).symm.trans hw')
    obtain ⟨m, hm, hhead⟩ := Witness.head_of_mem_outline hd
    exact ⟨hsubject, m, i, hhead, hi, harity ▸ hm⟩
  · exact absurd (ho.symm.trans hi') nofun

/-- An input is explained by an output of a function that its function needs. -/
theorem of_leads_input (hi : key.designator.head = .input n)
    (hleads : c.wiring.Leads query key key') :
    c.Needs key.subject key'.subject ∧ ∃ m, key'.designator.head = .output m := by
  obtain ⟨_, _, ho, -⟩ | ⟨m, output, hi', ho, rfl⟩ := hleads.cases
  · exact absurd (hi.symm.trans ho) nofun
  · obtain rfl := Part.input.inj (hi.symm.trans hi')
    exact ⟨⟨n, output.number, source?_of_feeder? ho⟩, output.number,
      Designator.head_nest_cons Part.output_ne_identity⟩

/-- Pins are explained by pins. -/
theorem IsPin.of_leads (hs : c.Supplied target) (h : c.IsPin target key)
    (hleads : c.wiring.Leads query key key') : c.IsPin target key' := by
  obtain ⟨hupstream, ⟨n, ho⟩ | ⟨n, i, hi, -, -⟩⟩ := h
  · obtain ⟨hsubject, m, i, hi, hinstance, hm⟩ := hs.of_leads_output hupstream ho hleads
    exact ⟨hsubject ▸ hupstream, .inr ⟨m, i, hi, hsubject ▸ hinstance, hm⟩⟩
  · obtain ⟨hneeds, ho⟩ := of_leads_input hi hleads
    exact ⟨hupstream.tail hneeds, .inl ho⟩

theorem IsPin.of_met (hs : c.Supplied target) (h : c.IsPin target key)
    (hmet : c.wiring.Met query key key') : c.IsPin target key' := by
  induction hmet with
  | refl => exact h
  | tail _ hleads ih => exact ih.of_leads hs hleads

/-- All chains of explanations end that start from an output of a function
    upstream. -/
theorem Supplied.grounded (hs : c.Supplied target) (hf : c.Upstream target f)
    (hd : d.head = .output n) : c.wiring.Grounded query ⟨d, f⟩ := by
  have hacc : Acc (fun g f => c.Needs f g) f := acc_of_reflTransGen hs.acc hf
  induction hacc generalizing d n with
  | intro f _ ih =>
    -- The chain goes to an input of the function first, then to what feeds it.
    refine Acc.intro _ fun key hkey => Acc.intro _ fun key' hkey' => ?_
    obtain ⟨hsubject, _, _, hinput, -⟩ := hs.of_leads_output hf hd hkey
    obtain ⟨hneeds, m, ho⟩ := of_leads_input hinput hkey'
    rw [hsubject] at hneeds
    exact ih key'.subject hneeds (hf.tail hneeds) ho

/-- Nothing explains a pin only if it is an input that is fed. -/
theorem IsPin.exists_fed (hs : c.Supplied target) (h : c.IsPin target key)
    (hr : c.wiring.rule query key = none) : ∃ n i v, key.designator.head = .input n ∧
      c.instances[key.subject]? = some i ∧ n < i.function.inArity ∧
      c.source? ⟨key.subject, n⟩ = some (.fed v) := by
  obtain ⟨hupstream, ⟨n, ho⟩ | ⟨n, i, hi, hinstance, hn⟩⟩ := h
  · obtain ⟨i, w, hi, hw, -⟩ := hs.witness _ hupstream
    rw [rule_of_output ho, witness?_eq hi hw] at hr
    exact absurd hr (Option.some_ne_none _)
  · obtain ⟨source, hsource⟩ := hs.source _ i n hupstream hinstance hn
    cases source with
    | fed v => exact ⟨n, i, v, hi, hinstance, hn, hsource⟩
    | wire output =>
      have ho : c.wiring.feeder ⟨key.subject, n⟩ = some output := feeder?_eq_some_iff.2 hsource
      rw [rule_of_input hi, ho] at hr
      exact absurd hr (Option.some_ne_none _)

/-- Right after an evaluation of `target`, a trace of an output of it ends, without
    a cycle, in values that are fed, and in functions without inputs. -/
theorem exists_tree_of_evaluate (h : c.Reachable) (he : (c.evaluate target).1 = .ok outs)
    (query : Query) (hd : d.head = .output n) : ∃ m t,
      (∀ fuel ≥ m, Tracer.tree? {} fuel (c.evaluate target).2.wiring query d target = some t) ∧
      (∀ id, ¬Relation.TransGen t.Linked id id) ∧
      ∀ id ∈ t.leaves, t.children id = [] ∧
        ((∃ key n i v, t.kind? id = some (.object key) ∧
          (c.evaluate target).2.Upstream target key.subject ∧ key.designator.head = .input n ∧
          (c.evaluate target).2.instances[key.subject]? = some i ∧ n < i.function.inArity ∧
          (c.evaluate target).2.source? ⟨key.subject, n⟩ = some (.fed v)) ∨
        t.kind? id = some .and) := by
  have hs : (c.evaluate target).2.Supplied target := supplied_of_evaluate h.wellWired he
  generalize (c.evaluate target).2 = c' at hs
  have hgrounded : c'.wiring.Grounded query ⟨d, target⟩ := hs.grounded .refl hd
  obtain ⟨keys, hkeys⟩ := exists_list_of_acc (c'.wiring.exists_next query) hgrounded
  obtain ⟨t, ht⟩ := Tracer.exists_tree hkeys
  refine ⟨keys.length + 1, t, fun fuel hfuel => ht fuel hfuel, ?_⟩
  obtain ⟨last, hrun, rfl, hwaits⟩ := Tracer.exists_run (ht _ (Nat.lt_succ_self _))
  have hg : Tracer.Grown c'.wiring query ⟨d, target⟩ last := Tracer.grown_start.run hrun
  refine ⟨fun id => hg.not_transGen_linked hgrounded, fun id hleaf =>
    ⟨(Tree.mem_leaves hleaf).1, ?_⟩⟩
  rcases hg.leaf_cases (hwaits rfl) hleaf with ⟨key, hk, hmet, hr⟩ | hand
  · have hroot : c'.IsPin target ⟨d, target⟩ := ⟨.refl, .inl ⟨n, hd⟩⟩
    have hpin : c'.IsPin target key := hroot.of_met hs hmet
    obtain ⟨n, i, v, hi, hinstance, hn, hfed⟩ := hpin.exists_fed hs hr
    exact .inl ⟨key, n, i, v, hk, hpin.upstream, hi, hinstance, hn, hfed⟩
  · exact .inr hand

/-- Below the sum in the diamond there is one leaf, the input of the fork. -/
theorem tree?_diamond : ∃ t, Tracer.tree? {} 9 (diamond.evaluate 1).2.wiring .causality
    (Designator.compose [.output 0]) 1 = some t ∧ t.leaves = [5] ∧
    t.kind? 5 = some (.object ⟨Designator.compose [.input 0], 0⟩) := by
  have h : (Tracer.tree? {} 9 (diamond.evaluate 1).2.wiring .causality
      (Designator.compose [.output 0]) 1).any (fun t => t.leaves = [5] ∧
        t.kind? 5 = some (.object ⟨Designator.compose [.input 0], 0⟩)) = true := by decide +kernel
  obtain ⟨t, ht, hleaf⟩ := (Option.any_eq_true _ _).1 h
  exact ⟨t, ht, of_decide_eq_true hleaf⟩

/-- The sum is explained by the value that is fed to the fork. -/
theorem exists_tree_diamond : (diamond.evaluate 1).1 = .ok [.int 4] ∧ ∃ m t,
    (∀ fuel ≥ m, Tracer.tree? {} fuel (diamond.evaluate 1).2.wiring .causality
      (Designator.compose [.output 0]) 1 = some t) ∧
    (∀ id, ¬Relation.TransGen t.Linked id id) ∧
    t.leaves = [5] ∧ t.children 5 = [] ∧
    t.kind? 5 = some (.object ⟨Designator.compose [.input 0], 0⟩) ∧
    (diamond.evaluate 1).2.source? ⟨0, 0⟩ = some (.fed (.int 2)) := by
  have he : (diamond.evaluate 1).1 = .ok [.int 4] := by rfl
  obtain ⟨m, t, ht, hcycle, hleaf⟩ := exists_tree_of_evaluate (d := Designator.compose [.output 0])
    reachable_diamond he .causality (Designator.head_compose_cons Part.output_ne_identity)
  obtain ⟨t', ht', hleaves, hk⟩ := tree?_diamond
  obtain rfl : t = t' := Tracer.tree?_unique (ht m (Nat.le_refl m)) ht'
  obtain ⟨hchildren, -⟩ := hleaf 5 (hleaves ▸ List.mem_singleton_self 5)
  exact ⟨he, m, t, ht, hcycle, hleaves, hchildren, hk, by rfl⟩

end Lineage.Circuit
