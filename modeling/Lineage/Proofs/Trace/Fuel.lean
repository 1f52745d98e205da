import Lineage.Proofs.Trace.Tree
import Mathlib.Data.List.Perm.Subperm

/-!
# When traces end

A trace of any depth ends, with enough fuel, when the parts that it may meet are
finitely many, and only then (`exists_tree_iff`): each node that waits to be
expanded stands for another of these, and the finished tree has a node for each.
More fuel than enough makes no difference.
-/

namespace Lineage.Tracer

variable {w : Wiring} {query : Query} {tracer : Tracer} {key key' : ObjectKey} {t t' : Tracing}
  {node : NodeId} {nodes : List NodeId} {fuel depth : Nat} {keys : List ObjectKey}

/-! ### Enough fuel -/

/-- Different nodes that have been expanded stand for different parts. -/
theorem Grown.length_expanded_le (h : Grown w query key t)
    (hkeys : ∀ key', w.Met query key key' → key' ∈ keys) : t.expanded.length ≤ keys.length := by
  -- By the parts they stand for, the nodes go into the list, each to another place.
  have hnodup : (t.expanded.map t.keeper.kind?).Nodup := by
    refine h.nodup.map_on fun i hi j _ hij => ?_
    obtain ⟨key', hk⟩ := h.object i hi
    exact h.unique i j key' hk (hij ▸ hk)
  have hsub : t.expanded.map t.keeper.kind? ⊆ keys.map fun key => some (.object key) := by
    intro kind hkind
    obtain ⟨i, hi, rfl⟩ := List.mem_map.1 hkind
    obtain ⟨key', hk⟩ := h.object i hi
    exact List.mem_map.2 ⟨key', hkeys key' (h.met i key' hk), hk.symm⟩
  have hle := (hnodup.subperm hsub).length_le
  rwa [List.length_map, List.length_map] at hle

theorem forEach_isSome {step : NodeId → Tracing → Option Tracing} {P : Tracing → Prop}
    (hstep : ∀ node t, P t → t.IsObject node → ∃ t', step node t = some t' ∧ P t' ∧
      t.keeper ≤ t'.keeper)
    (ht : P t) (hnodes : ∀ node ∈ nodes, t.IsObject node) :
    ∃ t', forEach step nodes t = some t' := by
  induction nodes generalizing t with
  | nil => exact ⟨t, rfl⟩
  | cons node nodes ih =>
    obtain ⟨t₁, h₁, ht₁, hle⟩ := hstep node t ht (hnodes node List.mem_cons_self)
    obtain ⟨t', h⟩ := ih ht₁ fun id hid => (hnodes id (List.mem_cons_of_mem _ hid)).mono hle
    exact ⟨t', Option.bind_eq_some_iff.2 ⟨t₁, h₁, h⟩⟩

/-- Fuel for each part that has not been expanded is enough. -/
theorem expand_isSome (tracer : Tracer) (depth : Nat)
    (hkeys : ∀ key', w.Met query key key' → key' ∈ keys)
    (ht : Grown w query key t) (hnode : t.IsObject node)
    (hfuel : keys.length < fuel + t.expanded.length) :
    ∃ t', expand tracer w query fuel depth node t = some t' := by
  induction fuel generalizing depth node t with
  | zero => exact absurd (ht.length_expanded_le hkeys) (by omega)
  | succ fuel ih =>
    rw [expand]
    split
    · exact ⟨t, rfl⟩
    · next hn =>
      obtain ⟨key', hk⟩ := hnode
      have hs : Step w query t _ := .expand hk fun hm => hn (.inr hm)
      -- Each of the nodes met leaves enough fuel for the next.
      refine forEach_isSome
        (P := fun t => Grown w query key t ∧ keys.length < fuel + t.expanded.length)
        (fun node t ht hnode => ?_) ⟨ht.step hs, ?_⟩ (fun _ => object_of_mem_leaves hk)
      · obtain ⟨t', h⟩ := ih (depth + 1) ht.1 hnode ht.2
        have hrun := expand_run hnode h
        have hle := hrun.le.2.length_le
        exact ⟨t', h, ⟨ht.1.run hrun, by omega⟩, hrun.le.1⟩
      · simp only [List.length_cons]
        omega

/-! ### More fuel -/

theorem forEach_mono {step step' : NodeId → Tracing → Option Tracing}
    (hstep : ∀ node t t', step node t = some t' → step' node t = some t')
    (h : forEach step nodes t = some t') : forEach step' nodes t = some t' := by
  induction nodes generalizing t with
  | nil => exact h
  | cons node nodes ih =>
    obtain ⟨t₁, h₁, h⟩ := Option.bind_eq_some_iff.1 h
    exact Option.bind_eq_some_iff.2 ⟨t₁, hstep node t t₁ h₁, ih h⟩

theorem expand_succ (h : expand tracer w query fuel depth node t = some t') :
    expand tracer w query (fuel + 1) depth node t = some t' := by
  induction fuel generalizing depth node t t' with
  | zero => exact absurd h nofun
  | succ fuel ih =>
    rw [expand] at h ⊢
    split at h
    · next hn => rw [if_pos hn, h]
    · next hn =>
      rw [if_neg hn]
      exact forEach_mono (fun _ _ _ => ih) h

variable {d : Designator} {root : FunctionId} {tree : Tree}

/-- More fuel than enough makes no difference. -/
theorem tree?_mono {fuel' : Nat} (hle : fuel ≤ fuel')
    (h : tree? tracer fuel w query d root = some tree) :
    tree? tracer fuel' w query d root = some tree := by
  induction hle with
  | refl => exact h
  | step _ ih =>
    rw [tree?_eq] at ih ⊢
    obtain ⟨t, ht, htree⟩ := Option.map_eq_some_iff.1 ih
    rw [expand_succ ht]
    exact congrArg some htree

/-- Two finished trees of one part agree, whatever fuel they took. -/
theorem tree?_unique {fuel' : Nat} {tree' : Tree}
    (h : tree? tracer fuel w query d root = some tree)
    (h' : tree? tracer fuel' w query d root = some tree') : tree = tree' := by
  have hmax := tree?_mono (Nat.le_max_left fuel fuel') h
  have hmax' := tree?_mono (Nat.le_max_right fuel fuel') h'
  exact Option.some.inj (hmax.symm.trans hmax')

/-! ### Finitely many parts -/

theorem exists_tree (hkeys : ∀ key', w.Met query ⟨d, root⟩ key' → key' ∈ keys) :
    ∃ tree, ∀ fuel > keys.length, tree? tracer fuel w query d root = some tree := by
  obtain ⟨t, h⟩ := expand_isSome tracer 0 hkeys grown_start ⟨_, Keeper.kind?_keep_empty⟩
    (Nat.lt_succ_self keys.length)
  refine ⟨t.keeper.toTree 0, fun fuel hfuel => tree?_mono hfuel ?_⟩
  rw [tree?_eq, h]
  rfl

/-- A finished tree without a bound on the depth has a node for each part that
    may be met. -/
theorem exists_node {last : Tracing} (h : Grown w query key last) (hwaits : ∀ id, ¬last.Waits id)
    (hmet : w.Met query key key') : ∃ id, last.keeper.kind? id = some (.object key') := by
  induction hmet with
  | refl => exact ⟨0, h.root⟩
  | tail _ hleads ih =>
    obtain ⟨id, hk⟩ := ih
    obtain ⟨subject, o, hr, d, hd, rfl⟩ := hleads
    have hid : id ∈ last.expanded := Decidable.by_contra fun hn => hwaits id ⟨⟨_, hk⟩, hn⟩
    have ho := h.obeys id _ hk hid
    rw [hr] at ho
    exact Keeper.Shows.exists_part ho hd

/-- The node has been expanded, too. -/
theorem exists_expanded {last : Tracing} (h : Grown w query key last)
    (hwaits : ∀ id, ¬last.Waits id) (hmet : w.Met query key key') :
    ∃ id ∈ last.expanded, last.keeper.kind? id = some (.object key') := by
  obtain ⟨id, hk⟩ := exists_node h hwaits hmet
  exact ⟨id, Decidable.by_contra fun hn => hwaits id ⟨⟨key', hk⟩, hn⟩, hk⟩

/-- A trace of any depth ends just when it may meet but finitely many parts. -/
theorem exists_tree_iff : (∃ fuel, (tree? {} fuel w query d root).isSome) ↔
    ∃ keys : List ObjectKey, ∀ key', w.Met query ⟨d, root⟩ key' → key' ∈ keys := by
  constructor
  · rintro ⟨fuel, h⟩
    obtain ⟨tree, h⟩ := Option.isSome_iff_exists.1 h
    obtain ⟨last, hrun, -, hwaits⟩ := exists_run h
    refine ⟨(List.range last.keeper.size).filterMap last.keeper.object?, fun key' hmet => ?_⟩
    obtain ⟨id, hk⟩ := exists_node (grown_start.run hrun) (hwaits rfl) hmet
    exact List.mem_filterMap.2
      ⟨id, List.mem_range.2 (Keeper.lt_size_of_kind? hk), Keeper.object?_eq_some_iff.2 hk⟩
  · rintro ⟨keys, hkeys⟩
    obtain ⟨tree, h⟩ := exists_tree hkeys
    exact ⟨keys.length + 1, by rw [h _ (Nat.lt_succ_self _)]; rfl⟩

end Lineage.Tracer
