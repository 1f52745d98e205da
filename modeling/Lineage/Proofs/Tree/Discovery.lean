import Lineage.Proofs.Trace.Search

/-!
# Orders of discovery

The search for leaves keeps the nodes that are still to be visited on a stack, and the
same node may be there many times. It finds the leaves in the order of the recursive
traversal nevertheless (`leaves_eq_filter`): to pop what a node has put on the stack is
to visit its children in order, and the nodes further down the stack are those that the
callers still have to visit (`Finds.visits`).

`Tree.Visits` is the recursive traversal, as a relation, and `Tree.leavesFrom?` is the
search without a result where it would go on, or would look for a node that is not there.
-/

namespace Lineage.Tree

variable {t : Tree} {id : NodeId} {fuel : Nat} {ids stack seen before after found : List NodeId}

/-- The root is a node, and links lead to nodes. -/
structure Closed (t : Tree) : Prop where
  root : t.root < t.size
  target : ∀ id < t.size, ∀ e ∈ t.children id, e.target < t.size

theorem children_of_node {node : Node} (h : t.nodes[id]? = some node) :
    t.children id = node.children := by
  rw [children, h]
  rfl

theorem exists_node (hlt : id < t.size) :
    ∃ node, t.nodes[id]? = some node ∧ t.children id = node.children :=
  have h : t.nodes[id]? = some t.nodes[id] := Array.getElem?_eq_getElem hlt
  ⟨_, h, children_of_node h⟩

/-- The search for leaves, as `leavesFrom`, if it ends. -/
def leavesFrom? (t : Tree) : Nat → List NodeId → List NodeId → Option (List NodeId)
  | _, [], _ => some []
  | 0, _ :: _, _ => none
  | fuel + 1, id :: stack, seen =>
    if id ∈ seen then leavesFrom? t fuel stack seen
    else do
      let node ← t.nodes[id]?
      let found ← leavesFrom? t fuel (node.children.map Edge.target ++ stack) (id :: seen)
      return if node.children.isEmpty then id :: found else found

/-- The recursive traversal: given the nodes that have been discovered, in order, it visits
    others in order. It skips those that have been discovered; of the others, it visits the
    children next. -/
inductive Visits (t : Tree) : List NodeId → List NodeId → List NodeId → Prop where
  | nil {before : List NodeId} : Visits t [] before before
  | skip {id : NodeId} {ids before after : List NodeId} (hid : id ∈ before)
    (h : Visits t ids before after) : Visits t (id :: ids) before after
  | visit {id : NodeId} {ids before below after : List NodeId} (hid : id ∉ before)
    (hbelow : Visits t ((t.children id).map Edge.target) (before ++ [id]) below)
    (h : Visits t ids below after) : Visits t (id :: ids) before after

namespace Visits

/-- What has been discovered stays so. -/
theorem subset (h : t.Visits ids before after) : before ⊆ after := by
  induction h with
  | nil => exact List.Subset.refl _
  | skip _ _ ih => exact ih
  | visit _ _ _ ihbelow ih =>
    exact fun i hi => ih (ihbelow (List.mem_append_left _ hi))

/-- No node is discovered twice. -/
theorem nodup (h : t.Visits ids before after) (hn : before.Nodup) : after.Nodup := by
  induction h with
  | nil => exact hn
  | skip _ _ ih => exact ih hn
  | visit hid _ _ ihbelow ih =>
    exact ih (ihbelow (List.nodup_append_comm.1 (List.nodup_cons.2 ⟨hid, hn⟩)))

/-- There is one order of discovery. -/
theorem unique {after' : List NodeId} (h : t.Visits ids before after)
    (h' : t.Visits ids before after') : after' = after := by
  induction h generalizing after' with
  | nil =>
    cases h'
    rfl
  | skip hid _ ih =>
    cases h' with
    | skip _ h' => exact ih h'
    | visit hid' => exact absurd hid hid'
  | visit hid _ _ ihbelow ih =>
    cases h' with
    | skip hid' => exact absurd hid' hid
    | visit _ hbelow' h' =>
      obtain rfl := ihbelow hbelow'
      exact ih h'

end Visits

/-- The number of nodes that have not been discovered. -/
def undiscovered (t : Tree) (before : List NodeId) : Nat :=
  ((Finset.range t.size).filter (· ∉ before)).card

theorem undiscovered_le (h : before ⊆ after) : t.undiscovered after ≤ t.undiscovered before :=
  Finset.card_le_card (Finset.monotone_filter_right _ fun _ _ hid hmem => hid (h hmem))

theorem undiscovered_lt (hlt : id < t.size) (hid : id ∉ before) :
    t.undiscovered (before ++ [id]) < t.undiscovered before := by
  have hsub : (Finset.range t.size).filter (· ∉ before ++ [id]) ⊆
      (Finset.range t.size).filter (· ∉ before) :=
    Finset.monotone_filter_right _ fun _ _ h hmem => h (List.mem_append_left _ hmem)
  exact Finset.card_lt_card ((Finset.ssubset_iff_of_subset hsub).2
    ⟨id, by simp [hlt, hid], by simp⟩)

/-- The traversal ends: it goes on only while there is a node to discover. -/
theorem exists_visits (h : t.Closed) (hids : ∀ id ∈ ids, id < t.size) (before : List NodeId) :
    ∃ after, t.Visits ids before after := by
  induction hn : t.undiscovered before using Nat.strongRecOn generalizing ids before with
  | ind n ihn =>
    subst hn
    induction ids with
    | nil => exact ⟨before, .nil⟩
    | cons id ids ih =>
      obtain ⟨hlt, hids⟩ := List.forall_mem_cons.1 hids
      by_cases hid : id ∈ before
      · obtain ⟨after, hafter⟩ := ih hids
        exact ⟨after, .skip hid hafter⟩
      · -- Below the node there is one less to discover, and no more for the nodes after it.
        have hfewer := undiscovered_lt hlt hid
        obtain ⟨below, hbelow⟩ := ihn _ hfewer (List.forall_mem_map.2 (h.target id hlt)) _ rfl
        obtain ⟨after, hafter⟩ :=
          ihn _ ((undiscovered_le hbelow.subset).trans_lt hfewer) hids below rfl
        exact ⟨after, .visit hid hbelow hafter⟩

/-! ### The search -/

theorem leavesFrom?_eq_some (h : t.leavesFrom? fuel stack seen = some found) :
    t.leavesFrom fuel stack seen = found := by
  induction fuel generalizing stack seen found with
  | zero =>
    cases stack with
    | nil => exact Option.some.inj h
    | cons id stack => exact absurd h nofun
  | succ fuel ih =>
    cases stack with
    | nil => exact Option.some.inj h
    | cons id stack =>
      rw [leavesFrom?] at h
      rw [leavesFrom]
      by_cases hid : id ∈ seen
      · rw [if_pos hid] at h ⊢
        exact ih h
      · rw [if_neg hid] at h ⊢
        obtain ⟨node, hnode, h⟩ := Option.bind_eq_some_iff.1 h
        obtain ⟨below, hbelow, h⟩ := Option.bind_eq_some_iff.1 h
        rw [children_of_node hnode, ih hbelow]
        exact Option.some.inj h

/-- The search finds the leaves if its fuel is that for the stack and for the links of the nodes
    that have not been seen. -/
def Finds (t : Tree) (stack seen found : List NodeId) : Prop :=
  ∀ fuel, stack.length + t.linksUnseen seen ≤ fuel → t.leavesFrom? fuel stack seen = some found

theorem finds_nil : t.Finds [] seen [] := fun fuel _ => by
  cases fuel <;> rfl

theorem Finds.skip (h : t.Finds stack seen found) (hid : id ∈ seen) :
    t.Finds (id :: stack) seen found := by
  intro fuel hfuel
  rw [List.length_cons] at hfuel
  cases fuel with
  | zero => omega
  | succ fuel =>
    rw [leavesFrom?, if_pos hid]
    exact h fuel (by omega)

theorem Finds.visit
    (h : t.Finds ((t.children id).map Edge.target ++ stack) (id :: seen) found)
    (hlt : id < t.size) (hid : id ∉ seen) :
    t.Finds (id :: stack) seen (if (t.children id).isEmpty then id :: found else found) := by
  intro fuel hfuel
  rw [List.length_cons] at hfuel
  cases fuel with
  | zero => omega
  | succ fuel =>
    have hlinks := linksUnseen_cons (t := t) hid
    have hfound := h fuel (by
      rw [List.length_append, List.length_map]
      omega)
    obtain ⟨node, hnode, hc⟩ := exists_node hlt
    rw [hc] at hfound ⊢
    rw [leavesFrom?, if_neg hid, hnode]
    change (t.leavesFrom? fuel _ (id :: seen)).bind _ = _
    rw [hfound]
    rfl

/-- To pop what is on the stack is to visit it, and to go on below. -/
theorem Finds.visits (hv : t.Visits ids before after) (hclosed : t.Closed)
    (hids : ∀ id ∈ ids, id < t.size) (h : t.Finds stack after.reverse found) :
    ∃ new, after = before ++ new ∧ t.Finds (ids ++ stack) before.reverse
      (new.filter (fun id => (t.children id).isEmpty) ++ found) := by
  induction hv generalizing stack found with
  | nil => exact ⟨[], (List.append_nil _).symm, h⟩
  | skip hid _ ih =>
    obtain ⟨new, rfl, hnew⟩ := ih (List.forall_mem_cons.1 hids).2 h
    exact ⟨new, rfl, hnew.skip (List.mem_reverse.2 hid)⟩
  | @visit id ids before below after hid _ _ ihbelow ih =>
    obtain ⟨hlt, hids⟩ := List.forall_mem_cons.1 hids
    -- The rest of the stack is what the callers still have to visit.
    obtain ⟨new, rfl, hnew⟩ := ih hids h
    obtain ⟨newBelow, rfl, hnewBelow⟩ :=
      ihbelow (List.forall_mem_map.2 (hclosed.target id hlt)) hnew
    refine ⟨id :: (newBelow ++ new), by simp, ?_⟩
    rw [List.reverse_append] at hnewBelow
    have hfound := hnewBelow.visit hlt (mt List.mem_reverse.1 hid)
    rw [← List.append_assoc, ← List.filter_append] at hfound
    -- The node itself is a leaf if it has put nothing on the stack.
    rw [List.filter_cons]
    split
    · next hc => simpa [hc] using hfound
    · next hc => simpa [hc] using hfound

/-- The search ends. Its leaves are, without repetition, the nodes without links that can be reached
    from the root, in the order in which the recursive traversal from the root discovers them. -/
theorem leaves_eq_filter (h : t.Closed) :
    t.leavesFrom? (t.edgeCount + 2) [t.root] [] = some t.leaves ∧ t.leaves.Nodup ∧
    (∀ id, id ∈ t.leaves ↔ t.children id = [] ∧ Relation.ReflTransGen t.Linked t.root id) ∧
    ∃ order, (∀ after, t.Visits [t.root] [] after ↔ after = order) ∧
      t.leaves = order.filter fun id => (t.children id).isEmpty := by
  have hroot : ∀ id ∈ [t.root], id < t.size := List.forall_mem_singleton.2 h.root
  obtain ⟨order, horder⟩ := exists_visits h hroot []
  obtain ⟨new, rfl, hnew⟩ := Finds.visits horder h hroot finds_nil
  have hleaves := hnew (t.edgeCount + 2) (by
    rw [List.reverse_nil, linksUnseen_nil]
    simp
    omega)
  have heq : t.leaves = _ := leavesFrom?_eq_some hleaves
  rw [List.append_nil] at heq
  refine ⟨?_, ?_, fun _ => mem_leaves_iff, order, fun after => ?_, heq⟩
  · rw [heq]
    simpa using hleaves
  · rw [heq]
    exact (horder.nodup List.nodup_nil).filter _
  · exact ⟨horder.unique, fun he => he ▸ horder⟩

/-- Two links lead from the root to the same node, which is on a cycle and links to itself. The
    leaves below the root are shared, and one node is a dead end. -/
def webbed : Tree where
  root := 0
  nodes := #[
    ⟨.or, [⟨1, .exact⟩, ⟨2, .exact⟩, ⟨1, .overApprox⟩, ⟨3, .exact⟩]⟩,
    ⟨.and, [⟨1, .exact⟩, ⟨4, .exact⟩, ⟨0, .exact⟩]⟩,
    ⟨.and, [⟨3, .exact⟩, ⟨4, .underApprox⟩, ⟨5, .exact⟩]⟩,
    ⟨.object ⟨.compose [.input 0], 0⟩, []⟩,
    ⟨.object ⟨.compose [.input 1], 0⟩, []⟩,
    ⟨.or, [⟨2, .exact⟩, ⟨5, .exact⟩]⟩,
    ⟨.object ⟨.compose [.input 2], 0⟩, []⟩]

theorem closed_webbed : webbed.Closed := ⟨by decide, by decide⟩

/-- The root links to one of the leaves, but the other is discovered first. -/
theorem leaves_webbed : webbed.leaves = [4, 3] ∧ webbed.Visits [0] [] [0, 1, 4, 2, 3, 5] := by
  have hone : webbed.Visits [1, 4, 0] [0, 1] [0, 1, 4] :=
    .skip (by decide) (.visit (by decide) .nil (.skip (by decide) .nil))
  have hfive : webbed.Visits [5] [0, 1, 4, 2, 3] [0, 1, 4, 2, 3, 5] :=
    .visit (by decide) (.skip (by decide) (.skip (by decide) .nil)) .nil
  have htwo : webbed.Visits [3, 4, 5] [0, 1, 4, 2] [0, 1, 4, 2, 3, 5] :=
    .visit (by decide) .nil (.skip (by decide) hfive)
  have hvisits : webbed.Visits [0] [] [0, 1, 4, 2, 3, 5] :=
    .visit (by decide) (.visit (by decide) hone
      (.visit (by decide) htwo (.skip (by decide) (.skip (by decide) .nil)))) .nil
  obtain ⟨-, -, -, order, horder, hleaves⟩ := leaves_eq_filter closed_webbed
  rw [hleaves, ← (horder _).1 hvisits]
  exact ⟨rfl, hvisits⟩

end Lineage.Tree
