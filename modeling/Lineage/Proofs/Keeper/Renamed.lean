import Lineage.Proofs.Keeper.Attach
import Mathlib.Logic.Relator

/-!
# Keepers under other names

Two keepers are alike but for the names of their nodes when they have the same links
between nodes of the same numbers, and what the nodes of one stand for goes by other
names in the other, one to one (`Renamed`). To attach parts to either, each by its own
name, is to find the same nodes and to make the same new ones (`Renamed.attach`), so
they stay alike.
-/

namespace Lineage.Keeper

variable {r : NodeKind → NodeKind → Prop} {k k' : Keeper} {subject : FunctionId}
  {parent : NodeId} {quality : Quality} {key key' : ObjectKey} {kind kind' : NodeKind}
  {ds ds' : List Designator}

/-- The nodes of `k'` are those of `k`, under the same numbers and with the same links; their kinds
    correspond by `r`. -/
structure Renamed (r : NodeKind → NodeKind → Prop) (k k' : Keeper) : Prop where
  kind : ∀ id, Option.Rel r (k.kind? id) (k'.kind? id)
  children : ∀ id, k'.children id = k.children id

namespace Renamed

theorem size_eq (h : Renamed r k k') : k'.size = k.size := by
  have hnone (id : NodeId) : k'.size ≤ id ↔ k.size ≤ id := by
    have hid := h.kind id
    rw [← kind?_eq_none_iff, ← kind?_eq_none_iff]
    generalize k.kind? id = o, k'.kind? id = o' at hid
    cases hid with
    | none => rfl
    | some => exact iff_of_false nofun nofun
  exact Nat.le_antisymm ((hnone _).2 (Nat.le_refl _)) ((hnone _).1 (Nat.le_refl _))

/-- A node has a name just if the node of the other keeper has the other name. -/
theorem kind?_eq_some_iff (hr : Relator.BiUnique r) (h : Renamed r k k') (hkind : r kind kind')
    {id : NodeId} : k'.kind? id = some kind' ↔ k.kind? id = some kind := by
  have hid := h.kind id
  generalize k.kind? id = o, k'.kind? id = o' at hid
  cases hid with
  | none => exact iff_of_false nofun nofun
  | some hid =>
    rw [Option.some_inj, Option.some_inj]
    constructor
    · rintro rfl
      exact hr.1 hid hkind
    · rintro rfl
      exact hr.2 hid hkind

theorem find? (hr : Relator.BiUnique r) (h : Renamed r k k')
    (hkey : r (.object key) (.object key')) : k'.find? key' = k.find? key := by
  refine Option.ext fun id => ?_
  rw [find?_eq_some_iff, find?_eq_some_iff, h.kind?_eq_some_iff hr hkey]
  simp only [ne_eq, h.kind?_eq_some_iff hr hkey]

theorem push (h : Renamed r k k') (hkind : r kind kind') :
    Renamed r (k.push kind).1 (k'.push kind').1 where
  kind id := by
    rw [kind?_push, kind?_push, h.size_eq]
    split
    · exact .some hkind
    · exact h.kind id
  children id := by rw [children_push, children_push, h.children]

theorem keep (hr : Relator.BiUnique r) (h : Renamed r k k')
    (hkey : r (.object key) (.object key')) :
    Renamed r (k.keep key).1 (k'.keep key').1 ∧ (k'.keep key').2 = (k.keep key).2 := by
  have hfind := h.find? hr hkey
  cases hf : k.find? key with
  | some id =>
    rw [keep_of_find? hf, keep_of_find? (hfind.trans hf)]
    exact ⟨h, rfl⟩
  | none =>
    rw [keep_of_find?_eq_none hf, keep_of_find?_eq_none (hfind.trans hf)]
    exact ⟨h.push hkey, h.size_eq⟩

theorem addChild (h : Renamed r k k') (parent child : NodeId) (quality : Quality) :
    Renamed r (k.addChild parent child quality) (k'.addChild parent child quality) where
  kind id := by
    rw [kind?_addChild, kind?_addChild]
    exact h.kind id
  children id := by
    by_cases hparent : parent < k.size
    · rw [children_addChild hparent, children_addChild (h.size_eq ▸ hparent), h.children]
    · -- There is no such node, and no link is added.
      by_cases hid : id = parent
      · have hsize := Nat.not_lt.1 hparent
        rw [children_of_size_le, children_of_size_le] <;> simp [h.size_eq, hid, hsize]
      · rw [children_addChild_of_ne hid, children_addChild_of_ne hid, h.children]

/-- Parts that correspond are attached by the same nodes. -/
theorem attach (hr : Relator.BiUnique r) (h : Renamed r k k')
    (hds : List.Forall₂ (fun d d' => r (.object ⟨d, subject⟩) (.object ⟨d', subject⟩)) ds ds') :
    Renamed r (attach subject parent quality ds k).1
        (Keeper.attach subject parent quality ds' k').1 ∧
      (Keeper.attach subject parent quality ds' k').2 =
        (Keeper.attach subject parent quality ds k).2 := by
  induction hds generalizing k k' with
  | nil => exact ⟨h, rfl⟩
  | cons hd _ ih =>
    -- Both keepers find the part or neither does, so the link leads to the same node.
    obtain ⟨hkeep, hid⟩ := h.keep hr hd
    rw [attach_cons, attach_cons, attachOne, attachOne, hid]
    obtain ⟨hrest, hids⟩ := ih (hkeep.addChild parent _ quality)
    exact ⟨hrest, congrArg (List.cons _) hids⟩

theorem attachBelow {root : NodeId} (hr : Relator.BiUnique r) (h : Renamed r k k')
    (hkind : r kind kind')
    (hds : List.Forall₂ (fun d d' => r (.object ⟨d, subject⟩) (.object ⟨d', subject⟩)) ds ds') :
    Renamed r (k.attachBelow kind subject root ds).1 (k'.attachBelow kind' subject root ds').1 ∧
      (k'.attachBelow kind' subject root ds').2 = (k.attachBelow kind subject root ds).2 := by
  -- What joins the parts is a new node, of the same number in both.
  rw [attachBelow_eq, attachBelow_eq, h.size_eq]
  obtain ⟨hattach, hids⟩ := (h.push hkind).attach hr hds
  exact ⟨hattach.addChild _ _ _, hids⟩

end Renamed

end Lineage.Keeper
