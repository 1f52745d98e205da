import Lineage.Proofs.Keeper.Attach

/-!
# Parts joined by a new node

Parts that differ are attached to a new node by a link each, in order
(`children_attach_of_nodup`). So the nodes given are the children of the new node,
to which the root has one more link (`joinedBelow_attachBelow`).
-/

namespace Lineage.Keeper

variable {k k' : Keeper} {subject : FunctionId} {parent root : NodeId} {quality : Quality}
  {d : Designator} {ds : List Designator} {leaves : List NodeId} {kind : NodeKind}

/-- From `k` to `k'`, a new node of the given kind comes below `root` and joins the nodes
    `leaves`, which stand for the parts `ds`. -/
structure JoinedBelow (k k' : Keeper) (subject : FunctionId) (root : NodeId) (kind : NodeKind)
    (ds : List Designator) (leaves : List NodeId) : Prop where
  kind : k'.kind? k.size = some kind
  root : k'.children root = addLink (k.children root) ⟨k.size, .exact⟩
  /-- The node links to the nodes given and to no others, in order. -/
  children : k'.children k.size = leaves.map (⟨·, .exact⟩)
  leaves : List.Forall₂ (fun d id => k'.kind? id = some (.object ⟨d, subject⟩)) ds leaves

/-- Parts that differ from each other and from those attached before are linked in order. -/
theorem children_attach_of_nodup (h : parent < k.size) (hds : ds.Nodup)
    (hold : ∀ e ∈ k.children parent, ∃ d ∉ ds, k.kind? e.target = some (.object ⟨d, subject⟩)) :
    (attach subject parent quality ds k).1.children parent =
      k.children parent ++ (attach subject parent quality ds k).2.map (⟨·, quality⟩) := by
  induction ds generalizing k with
  | nil => exact (List.append_nil _).symm
  | cons d ds ih =>
    obtain ⟨hd, hds⟩ := List.nodup_cons.1 hds
    have hkept : (k.keep ⟨d, subject⟩).1.kind? (k.keep ⟨d, subject⟩).2 =
        some (.object ⟨d, subject⟩) := kind?_of_find? find?_keep
    -- The node for the part is none that was linked before.
    have hfresh : (⟨(k.keep ⟨d, subject⟩).2, quality⟩ : Edge) ∉ k.children parent := fun he => by
      obtain ⟨d', hd', hk⟩ := hold _ he
      obtain rfl : d = d' := (ObjectKey.mk.inj (NodeKind.object.inj
        (Option.some.inj (hkept.symm.trans (kind?_mono le_keep hk))))).1
      exact hd' List.mem_cons_self
    have hchildren : (k.attachOne subject parent quality d).children parent =
        k.children parent ++ [⟨(k.keep ⟨d, subject⟩).2, quality⟩] := by
      rw [children_attachOne h, addLink_of_not_mem hfresh]
    rw [attach_cons, ih (Nat.lt_of_lt_of_le h (size_mono le_attachOne)) hds, hchildren,
      List.append_assoc]
    · rfl
    · intro e he
      rw [hchildren, List.mem_append, List.mem_singleton] at he
      rcases he with he | rfl
      · obtain ⟨d', hd', hk⟩ := hold e he
        exact ⟨d', fun h => hd' (List.mem_cons_of_mem d h), kind?_mono le_attachOne hk⟩
      · exact ⟨d, hd, by rw [kind?_attachOne, hkept]⟩

theorem joinedBelow_attachBelow (h : root < k.size) (hds : ds.Nodup) :
    k.JoinedBelow (k.attachBelow kind subject root ds).1 subject root kind ds
      (k.attachBelow kind subject root ds).2 where
  kind := kind?_attachBelow_size
  root := children_attachBelow_root h
  children := by
    have hnil : (k.push kind).1.children k.size = [] := by
      rw [children_push, children_of_size_le (Nat.le_refl _)]
    have hlt : k.size < (k.push kind).1.size := by
      rw [size_push]
      exact Nat.lt_succ_self _
    rw [attachBelow_eq, children_addChild_of_ne (Nat.ne_of_gt h),
      children_attach_of_nodup hlt hds fun e he => absurd (hnil ▸ he) List.not_mem_nil, hnil]
    rfl
  leaves := by
    rw [attachBelow_eq]
    exact find?_attach.imp fun d id hf => kind?_of_find? (find?_mono le_addChild hf)

end Lineage.Keeper
