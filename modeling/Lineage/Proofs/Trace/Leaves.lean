import Lineage.Proofs.Chains
import Lineage.Proofs.Trace.Fuel
import Lineage.Proofs.Trace.Search

/-!
# Traces without cycles

Where every chain of explanations ends, a trace of any depth ends, the tree has no
cycle, and its leaves are the parts that nothing explains, and AND nodes that join
nothing.
-/

namespace Lineage

variable {w : Wiring} {query : Query} {key key' : ObjectKey} {id : NodeId}

/-- All chains of explanations from a part end. -/
def Wiring.Grounded (w : Wiring) (query : Query) (key : ObjectKey) : Prop :=
  Acc (fun key' key => w.Leads query key key') key

/-- Finitely many parts explain a part. -/
theorem Wiring.exists_next (w : Wiring) (query : Query) (key : ObjectKey) :
    ∃ keys : List ObjectKey, ∀ key', w.Leads query key key' → key' ∈ keys := by
  cases hr : w.rule query key with
  | none =>
    refine ⟨[], fun key' hleads => ?_⟩
    obtain ⟨_, _, h, -⟩ := hleads
    exact absurd (hr.symm.trans h) nofun
  | some r =>
    refine ⟨r.2.parts.map fun d => ⟨d, r.1⟩, fun key' hleads => ?_⟩
    obtain ⟨subject, o, h, d, hd, rfl⟩ := hleads
    obtain rfl := Option.some.inj (hr.symm.trans h)
    exact List.mem_map_of_mem hd

namespace Tracer.Grown

variable {s : Tracing}

/-- What is below a node for a part from which all chains end has no endless
    chain of links either. -/
theorem acc_linked (h : Grown w query key s) (hg : w.Grounded query key')
    (hk : s.keeper.kind? id = some (.object key')) :
    Acc (fun j i => s.keeper.Linked i j) id := by
  induction hg generalizing id with
  | intro key' _ ih =>
    refine Acc.intro id fun child hchild => ?_
    obtain ⟨e, he, rfl⟩ := hchild
    obtain ⟨subject, o, hr, hs⟩ := h.exists_shows hk he
    have hpart {d : Designator} (hd : d ∈ o.parts) {id : NodeId}
        (hid : s.keeper.kind? id = some (.object ⟨d, subject⟩)) :
        Acc (fun j i => s.keeper.Linked i j) id := ih _ ⟨subject, o, hr, d, hd, rfl⟩ hid
    cases o with
    | link quality d =>
      obtain ⟨child, hc, hchild⟩ := hs
      obtain rfl := List.mem_singleton.1 (hc ▸ he)
      exact hpart List.mem_cons_self hchild
    | junction j ds =>
      obtain ⟨middle, hc, -, hs⟩ := hs
      obtain rfl := List.mem_singleton.1 (hc ▸ he)
      refine Acc.intro middle fun child hchild => ?_
      obtain ⟨e, he, rfl⟩ := hchild
      obtain ⟨d, hd, hk, -⟩ := hs.exists_part he
      exact hpart hd hk

/-- Then the keeper has no cycle of links. -/
theorem not_transGen_linked (h : Grown w query key s) (hg : w.Grounded query key) :
    ¬Relation.TransGen s.keeper.Linked id id := by
  intro hcycle
  obtain ⟨child, hchild, -⟩ := Relation.TransGen.head'_iff.1 hcycle
  obtain ⟨e, he, -⟩ := hchild
  obtain ⟨kind, hk⟩ := Keeper.exists_kind? (Keeper.lt_size_of_mem_children he)
  exact not_transGen_of_acc
    (acc_of_reflTransGen (h.acc_linked hg h.root) (h.linked id kind hk)) hcycle

/-- A leaf of a finished tree is a part that nothing explains, or an AND node. -/
theorem leaf_cases (h : Grown w query key s) (hwaits : ∀ id, ¬s.Waits id)
    (hleaf : id ∈ (s.keeper.toTree 0).leaves) :
    (∃ key', s.keeper.kind? id = some (.object key') ∧ w.Met query key key' ∧
      w.rule query key' = none) ∨ s.keeper.kind? id = some .and := by
  obtain ⟨hc, hmem⟩ := Tree.mem_leaves hleaf
  -- The search may put numbers on its stack that are no nodes, but links lead to
  -- nodes.
  have hkind : ∃ kind, s.keeper.kind? id = some kind := by
    rcases hmem with rfl | ⟨i, e, he, rfl⟩
    · exact ⟨_, h.root⟩
    · exact h.exists_target he
  obtain ⟨kind, hk⟩ := hkind
  cases kind with
  | object key' => exact .inl ⟨key', hk, h.met id key' hk, h.rule_eq_none (hwaits id) hk hc⟩
  | and => exact .inr hk
  | or => exact absurd hc (h.children_or_ne_nil hk)

end Tracer.Grown

end Lineage
