import Lineage.Proofs.Keeper.Nodes
import Mathlib.Data.List.Forall2
import Mathlib.Data.List.Nodup

/-!
# Attached parts

Attaching parts to a node keeps a node for each of them and links the node to
these, in order. A part that is attached already changes nothing
(`attachOne_of_attached`); so parts that are attached several times are linked
once, where they come first (`attach_eraseDups`, `Showing.attach`). Parts may also
be attached to a new node that joins them (`showing_attachBelow`).
-/

namespace Lineage.Keeper

variable {k k' : Keeper} {subject : FunctionId} {parent id : NodeId} {quality : Quality}
  {d : Designator} {ds : List Designator}

/-- Attaches a single part. -/
def attachOne (k : Keeper) (subject : FunctionId) (parent : NodeId) (quality : Quality)
    (d : Designator) : Keeper :=
  (k.keep ⟨d, subject⟩).1.addChild parent (k.keep ⟨d, subject⟩).2 quality

theorem attach_cons : attach subject parent quality (d :: ds) k =
    ((attach subject parent quality ds (k.attachOne subject parent quality d)).1,
      (k.keep ⟨d, subject⟩).2 ::
        (attach subject parent quality ds (k.attachOne subject parent quality d)).2) := rfl

/-! ### What is kept -/

theorem le_attachOne : k ≤ k.attachOne subject parent quality d := le_keep.trans le_addChild

theorem kind?_attachOne :
    (k.attachOne subject parent quality d).kind? id = (k.keep ⟨d, subject⟩).1.kind? id :=
  kind?_addChild

theorem le_attach : k ≤ (attach subject parent quality ds k).1 := by
  induction ds generalizing k with
  | nil => exact le_refl k
  | cons d ds ih => exact le_attachOne.trans ih

theorem find?_attachOne :
    (k.attachOne subject parent quality d).find? ⟨d, subject⟩ = some (k.keep ⟨d, subject⟩).2 :=
  find?_mono le_addChild find?_keep

/-- The nodes given are those for the parts. -/
theorem find?_attach : List.Forall₂
    (fun d id => (attach subject parent quality ds k).1.find? ⟨d, subject⟩ = some id) ds
    (attach subject parent quality ds k).2 := by
  induction ds generalizing k with
  | nil => exact .nil
  | cons d ds ih =>
    rw [attach_cons]
    exact .cons (find?_mono le_attach find?_attachOne) ih

theorem Unique.attachOne (hu : k.Unique) : (k.attachOne subject parent quality d).Unique :=
  hu.keep.addChild

theorem Unique.attach (hu : k.Unique) : (attach subject parent quality ds k).1.Unique := by
  induction ds generalizing k with
  | nil => exact hu
  | cons d ds ih => exact ih hu.attachOne

/-- A node that is new is one of those given, and stands for one of the parts. -/
theorem kind?_attach {kind : NodeKind}
    (h : (attach subject parent quality ds k).1.kind? id = some kind) :
    k.kind? id = some kind ∨
      id ∈ (attach subject parent quality ds k).2 ∧ ∃ d ∈ ds, kind = .object ⟨d, subject⟩ := by
  induction ds generalizing k with
  | nil => exact .inl h
  | cons d ds ih =>
    rw [attach_cons] at h ⊢
    rcases ih h with h | ⟨hid, d', hd', rfl⟩
    · rw [kind?_attachOne] at h
      rcases kind?_keep h with h | ⟨rfl, rfl⟩
      · exact .inl h
      · exact .inr ⟨List.mem_cons_self, d, List.mem_cons_self, rfl⟩
    · exact .inr ⟨List.mem_cons_of_mem _ hid, d', List.mem_cons_of_mem _ hd', rfl⟩

/-! ### What is linked -/

theorem children_attachOne_of_ne (h : id ≠ parent) :
    (k.attachOne subject parent quality d).children id = k.children id := by
  rw [attachOne, children_addChild_of_ne h, children_keep]

theorem children_attach_of_ne (h : id ≠ parent) :
    (attach subject parent quality ds k).1.children id = k.children id := by
  induction ds generalizing k with
  | nil => rfl
  | cons d ds ih => exact ih.trans (children_attachOne_of_ne h)

theorem children_attachOne (h : parent < k.size) :
    (k.attachOne subject parent quality d).children parent =
      addLink (k.children parent) ⟨(k.keep ⟨d, subject⟩).2, quality⟩ := by
  rw [attachOne, children_addChild (Nat.lt_of_lt_of_le h (size_mono le_keep)), if_pos rfl,
    children_keep]

theorem mem_children_attachOne {e : Edge} (h : parent < k.size) :
    e ∈ (k.attachOne subject parent quality d).children parent ↔
      e ∈ k.children parent ∨ e = ⟨(k.keep ⟨d, subject⟩).2, quality⟩ := by
  rw [children_attachOne h]
  exact mem_addLink

/-- The links from `parent` are those it had, and one to each of the nodes given. -/
theorem mem_children_attach {e : Edge} (h : parent < k.size) :
    e ∈ (attach subject parent quality ds k).1.children parent ↔
      e ∈ k.children parent ∨
        e.target ∈ (attach subject parent quality ds k).2 ∧ e.quality = quality := by
  induction ds generalizing k with
  | nil => exact ⟨.inl, fun h => h.elim id fun h => absurd h.1 List.not_mem_nil⟩
  | cons d ds ih =>
    obtain ⟨target, quality'⟩ := e
    rw [attach_cons, ih (Nat.lt_of_lt_of_le h (size_mono le_attachOne)), mem_children_attachOne h,
      List.mem_cons, or_assoc, or_and_right, Edge.mk.injEq]

/-- The part has a node, to which `parent` links. -/
def Attached (k : Keeper) (subject : FunctionId) (parent : NodeId) (quality : Quality)
    (d : Designator) : Prop :=
  ∃ id, k.find? ⟨d, subject⟩ = some id ∧ ⟨id, quality⟩ ∈ k.children parent

theorem attachOne_of_attached (h : k.Attached subject parent quality d) :
    k.attachOne subject parent quality d = k := by
  obtain ⟨id, hf, hmem⟩ := h
  rw [attachOne, keep_of_find? hf, addChild_of_mem hmem]

theorem attached_attachOne (h : parent < k.size) :
    (k.attachOne subject parent quality d).Attached subject parent quality d :=
  ⟨_, find?_attachOne, by rw [children_attachOne h]; exact mem_addLink.2 (.inr rfl)⟩

theorem Attached.attachOne {d' : Designator} (h : parent < k.size)
    (hd : k.Attached subject parent quality d) :
    (k.attachOne subject parent quality d').Attached subject parent quality d := by
  obtain ⟨id, hf, hmem⟩ := hd
  refine ⟨id, find?_mono le_attachOne hf, ?_⟩
  rw [children_attachOne h]
  exact mem_addLink.2 (.inl hmem)

/-- A part that is attached need not be attached again. -/
theorem attach_filter (f : Designator → Designator) (h : parent < k.size)
    (hd : k.Attached subject parent quality (f d)) :
    (attach subject parent quality ((ds.filter fun d' => !d' == d).map f) k).1 =
      (attach subject parent quality (ds.map f) k).1 := by
  induction ds generalizing k with
  | nil => rfl
  | cons d' ds ih =>
    have hlt {d' : Designator} : parent < (k.attachOne subject parent quality d').size :=
      Nat.lt_of_lt_of_le h (size_mono le_attachOne)
    by_cases he : d' = d
    · subst he
      rw [List.filter_cons_of_neg (by simp), List.map_cons, attach_cons, attachOne_of_attached hd]
      exact ih h hd
    · rw [List.filter_cons_of_pos (by simpa using he), List.map_cons, List.map_cons, attach_cons,
        attach_cons]
      exact ih hlt (hd.attachOne h)

/-- Each part need be attached but once. -/
theorem attach_eraseDups (f : Designator → Designator) (h : parent < k.size) :
    (attach subject parent quality (ds.eraseDups.map f) k).1 =
      (attach subject parent quality (ds.map f) k).1 := by
  induction hn : ds.length using Nat.strongRecOn generalizing ds k with
  | ind n ih =>
    cases ds with
    | nil => rw [List.eraseDups_nil]
    | cons d ds =>
      subst hn
      have hlt : parent < (k.attachOne subject parent quality (f d)).size :=
        Nat.lt_of_lt_of_le h (size_mono le_attachOne)
      rw [List.eraseDups_cons, List.map_cons, List.map_cons, attach_cons, attach_cons]
      refine (ih _ ?_ hlt rfl).trans (attach_filter f hlt (attached_attachOne h))
      exact Nat.lt_succ_of_le (List.length_filter_le _ _)

/-- The links from `parent` lead to the nodes for parts, each where it comes
    first in `ds`. -/
def Showing (k : Keeper) (subject : FunctionId) (parent : NodeId) (quality : Quality)
    (ds : List Designator) : Prop :=
  (k.children parent).map (fun e => (k.kind? e.target, e.quality)) =
    ds.eraseDups.map fun d => (some (.object ⟨d, subject⟩), quality)

/-- Each link leads to the node for one of the parts. -/
theorem Showing.exists_part {e : Edge} (hs : k.Showing subject parent quality ds)
    (he : e ∈ k.children parent) :
    ∃ d ∈ ds, k.kind? e.target = some (.object ⟨d, subject⟩) ∧ e.quality = quality := by
  have hm := List.mem_map_of_mem (f := fun e => (k.kind? e.target, e.quality)) he
  rw [hs] at hm
  obtain ⟨d, hd, heq⟩ := List.mem_map.1 hm
  obtain ⟨hk, hq⟩ := Prod.mk.inj heq
  exact ⟨d, List.mem_eraseDups.1 hd, hk.symm, hq.symm⟩

/-- Each part has a node, to which a link leads. -/
theorem Showing.exists_link (hs : k.Showing subject parent quality ds) (hd : d ∈ ds) :
    ∃ id, k.kind? id = some (.object ⟨d, subject⟩) ∧ ⟨id, quality⟩ ∈ k.children parent := by
  have hm : (some (.object ⟨d, subject⟩), quality) ∈
      (k.children parent).map fun e => (k.kind? e.target, e.quality) := by
    rw [hs]
    exact List.mem_map.2 ⟨d, List.mem_eraseDups.2 hd, rfl⟩
  obtain ⟨⟨id, q⟩, he, heq⟩ := List.mem_map.1 hm
  obtain ⟨hk, rfl⟩ := Prod.mk.inj heq
  exact ⟨id, hk, he⟩

/-- The links and the parts they lead to, one by one. -/
theorem Showing.forall₂ (hs : k.Showing subject parent quality ds) :
    List.Forall₂ (fun d e => d ∈ ds ∧ k.kind? e.target = some (.object ⟨d, subject⟩) ∧
      e.quality = quality) ds.eraseDups (k.children parent) := by
  refine (List.forall₂_and_left _ _).2 ⟨fun d hd => List.mem_eraseDups.1 hd, ?_⟩
  have h : List.Forall₂ Eq (ds.eraseDups.map fun d =>
      ((some (.object ⟨d, subject⟩) : Option NodeKind), quality))
      ((k.children parent).map fun e => (k.kind? e.target, e.quality)) := by
    rw [List.forall₂_eq_eq_eq, hs]
  rw [List.forall₂_map_left_iff, List.forall₂_map_right_iff] at h
  exact h.imp fun d e he => ⟨(Prod.mk.inj he).1.symm, (Prod.mk.inj he).2.symm⟩

theorem nodup_eraseDups : ds.eraseDups.Nodup := by
  -- The recursion of `eraseDups` is on the rest without the first part.
  induction hn : ds.length using Nat.strongRecOn generalizing ds with
  | ind n ih =>
    cases ds with
    | nil => rw [List.eraseDups_nil]; exact List.nodup_nil
    | cons d ds =>
      subst hn
      rw [List.eraseDups_cons]
      refine List.nodup_cons.2 ⟨fun hmem => ?_, ih _ ?_ rfl⟩
      · simpa using List.mem_eraseDups.1 hmem
      · exact Nat.lt_succ_of_le (List.length_filter_le _ _)

/-- No two links lead to the same part. -/
theorem Showing.nodup (hs : k.Showing subject parent quality ds) : (k.children parent).Nodup := by
  refine List.Nodup.of_map (fun e => (k.kind? e.target, e.quality)) ?_
  rw [hs]
  refine nodup_eraseDups.map fun d d' h => ?_
  exact (ObjectKey.mk.inj (NodeKind.object.inj (Option.some.inj (Prod.mk.inj h).1))).1

/-- Kinds last, so links go on to lead to the nodes for the parts. -/
theorem Showing.mono (h : k ≤ k') (hc : k'.children parent = k.children parent)
    (hs : k.Showing subject parent quality ds) : k'.Showing subject parent quality ds := by
  rw [Showing, hc, ← hs]
  refine List.map_congr_left fun e he => ?_
  obtain ⟨d, -, hk, -⟩ := hs.exists_part he
  rw [kind?_of_lt h (lt_size_of_kind? hk)]

theorem Showing.attachOne (hu : k.Unique) (h : parent < k.size)
    (hs : k.Showing subject parent quality ds) :
    (k.attachOne subject parent quality d).Showing subject parent quality (ds ++ [d]) := by
  by_cases hd : d ∈ ds
  · -- The part is among those shown, so it is attached.
    obtain ⟨id, hk, he⟩ := hs.exists_link hd
    rw [attachOne_of_attached ⟨id, hu.find? hk, he⟩, Showing, hs, List.eraseDups_append]
    simp [List.removeAll, hd]
  · -- It is not, so no link leads to its node.
    have hmem : ⟨(k.keep ⟨d, subject⟩).2, quality⟩ ∉ k.children parent := fun he => by
      obtain ⟨d', hd', hk, -⟩ := hs.exists_part he
      have hk' : (k.keep ⟨d, subject⟩).1.kind? (k.keep ⟨d, subject⟩).2 =
        some (.object ⟨d', subject⟩) := kind?_mono le_keep hk
      rw [kind?_of_find? find?_keep] at hk'
      cases hk'
      exact hd hd'
    have hold : ((k.keep ⟨d, subject⟩).1).Showing subject parent quality ds :=
      hs.mono le_keep children_keep
    have hnew : [d].removeAll ds = [d] := by simp [List.removeAll, hd]
    rw [Showing, children_attachOne h, addLink_of_not_mem hmem, List.map_append,
      List.eraseDups_append, hnew, List.map_append, ← hold, children_keep]
    simp [kind?_attachOne, kind?_of_find? find?_keep, List.eraseDups_cons]

theorem Showing.attach {ds' : List Designator} (hu : k.Unique) (h : parent < k.size)
    (hs : k.Showing subject parent quality ds) :
    (attach subject parent quality ds' k).1.Showing subject parent quality (ds ++ ds') := by
  induction ds' generalizing k ds with
  | nil => rwa [List.append_nil]
  | cons d ds' ih =>
    rw [attach_cons, List.append_cons]
    exact ih hu.attachOne (Nat.lt_of_lt_of_le h (size_mono le_attachOne)) (hs.attachOne hu h)

theorem showing_nil (h : k.children parent = []) : k.Showing subject parent quality [] := by
  rw [Showing, h]
  rfl

/-! ### Parts below a node that joins them

The new node is `k.size`; the parts are attached to it before it is linked. -/

section Below

variable {kind kind' : NodeKind} {root : NodeId}

theorem attachBelow_eq : k.attachBelow kind subject root ds =
    ((attach subject k.size .exact ds (k.push kind).1).1.addChild root k.size .exact,
      (attach subject k.size .exact ds (k.push kind).1).2) := rfl

theorem le_attachBelow : k ≤ (k.attachBelow kind subject root ds).1 :=
  (le_push.trans le_attach).trans le_addChild

theorem kind?_attachBelow_size :
    (k.attachBelow kind subject root ds).1.kind? k.size = some kind := by
  rw [attachBelow_eq, kind?_addChild]
  exact le_attach _ _ (by rw [kind?_push, if_pos rfl])

/-- A node that was there, the node that joins the parts, or a node for one of
    them. -/
theorem kind?_attachBelow (h : (k.attachBelow kind subject root ds).1.kind? id = some kind') :
    k.kind? id = some kind' ∨ id = k.size ∧ kind' = kind ∨
      id ∈ (k.attachBelow kind subject root ds).2 ∧ ∃ d ∈ ds, kind' = .object ⟨d, subject⟩ := by
  rw [attachBelow_eq, kind?_addChild] at h
  rcases kind?_attach h with hk | hpart
  · rw [kind?_push] at hk
    split at hk
    · next hid => exact .inr (.inl ⟨hid, (Option.some.inj hk).symm⟩)
    · exact .inl hk
  · exact .inr (.inr hpart)

theorem children_attachBelow_of_ne (hroot : id ≠ root) (hid : id ≠ k.size) :
    (k.attachBelow kind subject root ds).1.children id = k.children id := by
  rw [attachBelow_eq, children_addChild_of_ne hroot, children_attach_of_ne hid, children_push]

theorem children_attachBelow_root (h : root < k.size) :
    (k.attachBelow kind subject root ds).1.children root =
      addLink (k.children root) ⟨k.size, .exact⟩ := by
  have hlt : root < (attach subject k.size .exact ds (k.push kind).1).1.size :=
    Nat.lt_of_lt_of_le h (size_mono (le_push.trans le_attach))
  rw [attachBelow_eq, children_addChild hlt, if_pos rfl,
    children_attach_of_ne (Nat.ne_of_lt h), children_push]

/-- The new node links to the nodes given. -/
theorem mem_children_attachBelow_size {e : Edge} (h : root < k.size) :
    e ∈ (k.attachBelow kind subject root ds).1.children k.size ↔
      e.target ∈ (k.attachBelow kind subject root ds).2 ∧ e.quality = .exact := by
  rw [attachBelow_eq, children_addChild_of_ne (Nat.ne_of_gt h),
    mem_children_attach (by rw [size_push]; exact Nat.lt_succ_self _), children_push,
    children_of_size_le (Nat.le_refl _)]
  exact or_iff_right List.not_mem_nil

theorem Unique.attachBelow (hu : k.Unique) (hkind : ∀ key, kind ≠ .object key) :
    (k.attachBelow kind subject root ds).1.Unique :=
  (hu.push hkind).attach.addChild

theorem showing_attachBelow (hu : k.Unique) (hkind : ∀ key, kind ≠ .object key)
    (h : root < k.size) :
    (k.attachBelow kind subject root ds).1.Showing subject k.size .exact ds := by
  have hlt : k.size < (k.push kind).1.size := by
    rw [size_push]
    exact Nat.lt_succ_self _
  have hnil : (k.push kind).1.children k.size = [] := by
    rw [children_push, children_of_size_le (Nat.le_refl _)]
  have hs : (attach subject k.size .exact ds (k.push kind).1).1.Showing subject k.size .exact ds :=
    (showing_nil hnil).attach (hu.push hkind) hlt
  exact hs.mono le_addChild (children_addChild_of_ne (Nat.ne_of_gt h))

end Below

end Lineage.Keeper
