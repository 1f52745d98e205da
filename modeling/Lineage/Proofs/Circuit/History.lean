import Lineage.Proofs.Circuit.Alike
import Lineage.Proofs.Circuit.Explained
import Lineage.Proofs.Trace.Local

/-!
# Traces and history

A circuit keeps the witnesses of all evaluations that it has seen, of functions
that were wired otherwise or fed other values, and of evaluations that failed in
the end. None of this shows in a trace of a function that has just been evaluated
(`sameTraces_of_alike`): a trace meets functions upstream only (`upstream_of_met`),
and all of them have been evaluated anew.

So a copy without witnesses, evaluated again, is traced like the circuit it was
made from, and a copy with witnesses is traced like it at once.
-/

namespace Lineage.Circuit

variable {c c' : Circuit} {target f : FunctionId} {query : Query} {key key' : ObjectKey}
  {d : Designator} {outs : List Value}

/-- Evaluating `target` comes to the same in both circuits, and if there are
    outputs, so does tracing it then, whatever is asked and to whatever depth. -/
structure SameTraces (c c' : Circuit) (target : FunctionId) : Prop where
  outcome : (c.evaluate target).1 = (c'.evaluate target).1
  tree : ∀ outs, (c.evaluate target).1 = .ok outs → ∀ tracer query d, ∃ n t, ∀ fuel ≥ n,
    Tracer.tree? tracer fuel (c.evaluate target).2.wiring query d target = some t ∧
    Tracer.tree? tracer fuel (c'.evaluate target).2.wiring query d target = some t

/-! ### Parts that are met -/

/-- A part is explained by parts of the same function or of one that it needs. -/
theorem upstream_of_leads (h : c.wiring.Leads query key key') :
    c.Upstream key.subject key'.subject := by
  rcases h.cases with ⟨n, w, -, -, -, hsubject⟩ | ⟨n, output, -, ho, rfl⟩
  · rw [hsubject]
    exact .refl
  · exact .single ⟨n, output.number, source?_of_feeder? ho⟩

/-- A trace goes upstream. -/
theorem upstream_of_met (h : c.wiring.Met query key key') :
    c.Upstream key.subject key'.subject := by
  induction h with
  | refl => exact .refl
  | tail _ hleads ih => exact ih.trans (upstream_of_leads hleads)

/-- What explains a part is the same where the function has the same witness and
    its inputs are fed by the same outputs. -/
theorem Alike.rule_eq (h : Alike c c')
    (hi : c.instances[key.subject]? = c'.instances[key.subject]?) :
    c.wiring.rule query key = c'.wiring.rule query key := by
  have hw : c.wiring.witness key.subject = c'.wiring.witness key.subject := by
    simp [wiring, witness?, hi]
  have hf (input : Pin) : c.wiring.feeder input = c'.wiring.feeder input := h.feeder?_eq input
  simp only [Wiring.rule, hw, hf]

/-- All chains of explanations end that start from a part of a function that has
    just been evaluated. -/
theorem Supplied.grounded_part (hs : c.Supplied target) (query : Query) (d : Designator) :
    c.wiring.Grounded query ⟨d, target⟩ := by
  by_cases ho : ∃ n, d.head = .output n
  · obtain ⟨n, ho⟩ := ho
    exact hs.grounded .refl ho
  · -- An input leads to an output, and other parts lead nowhere.
    refine Acc.intro _ fun key hleads => ?_
    rcases hleads.cases with ⟨n, _, hn, -⟩ | ⟨n, _, hn, -⟩
    · exact absurd ⟨n, hn⟩ ho
    · obtain ⟨hneeds, m, hm⟩ := of_leads_input hn hleads
      exact hs.grounded (.single hneeds) hm

/-- A trace of a function that has just been evaluated ends, to whatever depth it
    goes. -/
theorem Supplied.exists_tree (hs : c.Supplied target) (tracer : Tracer) (query : Query)
    (d : Designator) : ∃ n t, ∀ fuel ≥ n,
      Tracer.tree? tracer fuel c.wiring query d target = some t := by
  obtain ⟨keys, hkeys⟩ := exists_list_of_acc (c.wiring.exists_next query) (hs.grounded_part query d)
  exact ⟨keys.length + 1, Tracer.exists_tree hkeys⟩

/-! ### Circuits with another history -/

theorem Alike.sameTraces (h : Alike c c') (hwired : c.WellWired) (target : FunctionId) :
    SameTraces c c' target where
  outcome := h.evaluate_eq hwired target
  tree outs he tracer query d := by
    have hc : Alike c (c.evaluate target).2 := alike_evaluate hwired target
    have hc' : Alike (c.evaluate target).2 (c'.evaluate target).2 := by
      obtain ⟨r, p, q, hr, hr', hagree, -⟩ := h.exists_agree hwired target
      rw [hr, hr']
      exact hagree.alike
    obtain ⟨n, t, ht⟩ := (supplied_of_evaluate hwired he).exists_tree tracer query d
    refine ⟨n, t, fun fuel hfuel => ⟨ht fuel hfuel, ?_⟩⟩
    rw [← ht fuel hfuel]
    refine (Tracer.tree?_congr fun key hmet => hc'.rule_eq ?_).symm
    exact h.instances_eq hwired he (hc.upstream_iff.2 (upstream_of_met hmet))

/-- A copy with all witnesses is the circuit that it was made from. -/
theorem duplicate_true (c : Circuit) : c.duplicate true = c := by
  obtain ⟨instances, sources⟩ := c
  simp [duplicate, Instance.duplicate]

/-- Whatever was evaluated before, in circuits with the same functions, wires and
    fed values a function evaluates to the same and is then traced alike. -/
theorem sameTraces_of_alike (h : c.Reachable) (ha : Alike c c') (target : FunctionId) :
    SameTraces c c' target ∧ SameTraces (c.duplicate false) c target ∧
      ∀ tracer fuel query d root,
        Tracer.tree? tracer fuel (c.duplicate true).wiring query d root =
          Tracer.tree? tracer fuel c.wiring query d root := by
  refine ⟨ha.sameTraces h.wellWired target, ?_, fun tracer fuel query d root => ?_⟩
  · exact (Alike.duplicate c false).symm.sameTraces (h.wellWired.duplicate false) target
  · rw [duplicate_true]

/-- The diamond after it has been evaluated on another value. -/
def agedDiamond : Circuit :=
  ((diamond.setSource ⟨0, 0⟩ (.fed (.int 5))).evaluate 1).2.setSource ⟨0, 0⟩ (.fed (.int 2))

/-- The value that was fed in between does not show: the sum is explained by the
    input of the fork in both. -/
theorem sameTraces_diamond : diamond.Reachable ∧ Alike diamond agedDiamond ∧
    (diamond.evaluate 1).1 = .ok [.int 4] ∧ agedDiamond.witness? 1 ≠ none ∧
    SameTraces diamond agedDiamond 1 ∧ ∃ n t, t.leaves = [5] ∧
      t.kind? 5 = some (.object ⟨Designator.compose [.input 0], 0⟩) ∧ ∀ fuel ≥ n,
        Tracer.tree? {} fuel (diamond.evaluate 1).2.wiring .causality
          (Designator.compose [.output 0]) 1 = some t ∧
        Tracer.tree? {} fuel (agedDiamond.evaluate 1).2.wiring .causality
          (Designator.compose [.output 0]) 1 = some t := by
  have h : (diamond.setSource ⟨0, 0⟩ (.fed (.int 5))).Reachable := reachable_diamond.fed (by rfl)
  have ha : Alike diamond agedDiamond := (alike_evaluate h.wellWired 1).of_refed (by rfl)
  have he : (diamond.evaluate 1).1 = .ok [.int 4] := by rfl
  have hsame : SameTraces diamond agedDiamond 1 := (sameTraces_of_alike reachable_diamond ha 1).1
  obtain ⟨t', ht', hleaves, hk⟩ := tree?_diamond
  obtain ⟨n, t, ht⟩ := hsame.tree _ he {} .causality (Designator.compose [.output 0])
  obtain rfl : t = t' := Tracer.tree?_unique (ht n (Nat.le_refl n)).1 ht'
  exact ⟨reachable_diamond, ha, he, nofun, hsame, n, t, hleaves, hk, ht⟩

end Lineage.Circuit
