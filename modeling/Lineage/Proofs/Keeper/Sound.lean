import Lineage.Proofs.Graft.Image
import Lineage.Proofs.Outcomes

/-!
# Sound keepers

A keeper is sound when no two nodes stand for the same part, links lead to nodes,
and no link is there twice. Whatever is done to a sound keeper leaves it sound, and
adds to it: nodes keep their kinds and their links, and new links come behind those
that were there (`Extended`). There is one such lemma for each operation.

In a sound keeper, parts and nodes are registered one to one: the register has
each object node once, with the part that the node stands for (`mem_entries`,
`nodup_parts`, `nodup_numbers`), so what is entered never takes the place of
another entry. It is searched from either side with the same result
(`Sound.find?_eq_some_iff`, `object?_eq_some_iff`).
-/

namespace Lineage.Keeper

variable {k k' k'' scratch : Keeper} {subject : FunctionId} {kind : NodeKind} {key : ObjectKey}
  {root parent child id source target : NodeId} {quality : Quality} {ds : List Designator}
  {leaves : List NodeId} {rename : Designator → Designator}

/-- What every keeper satisfies that begins without nodes. -/
structure Sound (k : Keeper) : Prop where
  /-- No two nodes stand for the same part. -/
  unique : k.Unique
  /-- Links lead to nodes. -/
  target : ∀ id, ∀ e ∈ k.children id, e.target < k.size
  /-- No link is there twice. -/
  nodup : ∀ id, (k.children id).Nodup

theorem sound_empty : empty.Sound where
  unique := unique_empty
  target _ _ he := absurd he List.not_mem_nil
  nodup _ := List.nodup_nil

/-- From `k` to `k'`, nodes and links are added, and nothing else changes; what results is sound. -/
structure Extended (k k' : Keeper) : Prop where
  le : k ≤ k'
  /-- New links come last. -/
  children : ∀ id, k.children id <+: k'.children id
  sound : k'.Sound

theorem Sound.extended (h : k.Sound) : Extended k k := ⟨le_refl k, fun _ => List.prefix_rfl, h⟩

theorem Extended.trans (h : Extended k k') (h' : Extended k' k'') : Extended k k'' :=
  ⟨h.le.trans h'.le, fun id => (h.children id).trans (h'.children id), h'.sound⟩

theorem Extended.lt_size (h : Extended k k') (hid : id < k.size) : id < k'.size :=
  Nat.lt_of_lt_of_le hid (size_mono h.le)

namespace Sound

/-! ### Nodes and links -/

/-- Where links are as they were, only the kinds of nodes matter. -/
theorem extended_of_children (h : k.Sound) (hle : k ≤ k') (hu : k'.Unique)
    (hc : ∀ id, k'.children id = k.children id) : Extended k k' where
  le := hle
  children id := (hc id).symm ▸ List.prefix_rfl
  sound :=
    { unique := hu
      target := fun id e he => Nat.lt_of_lt_of_le (h.target id e (hc id ▸ he)) (size_mono hle)
      nodup := fun id => (hc id).symm ▸ h.nodup id }

theorem extended_keep (h : k.Sound) (key : ObjectKey) : Extended k (k.keep key).1 :=
  h.extended_of_children le_keep h.unique.keep fun _ => children_keep

theorem extended_push (h : k.Sound) (hkind : ∀ key, kind ≠ .object key) :
    Extended k (k.push kind).1 :=
  h.extended_of_children le_push (h.unique.push hkind) fun _ => children_push

theorem extended_addChild (h : k.Sound) (hparent : parent < k.size) (hchild : child < k.size) :
    Extended k (k.addChild parent child quality) where
  le := le_addChild
  children id := by
    rw [children_addChild hparent]
    split
    · exact prefix_addLink
    · exact List.prefix_rfl
  sound :=
    { unique := h.unique.addChild
      target := fun id e he => by
        rw [size_addChild]
        rw [children_addChild hparent] at he
        split at he
        · rcases mem_addLink.1 he with he | rfl
          · exact h.target id e he
          · exact hchild
        · exact h.target id e he
      nodup := fun id => by
        rw [children_addChild hparent]
        split
        · exact nodup_addLink (h.nodup id)
        · exact h.nodup id }

/-! ### Attached parts -/

theorem extended_attach (h : k.Sound) (hparent : parent < k.size) :
    Extended k (attach subject parent quality ds k).1 := by
  induction ds generalizing k with
  | nil => exact h.extended
  | cons d ds ih =>
    have hkeep := h.extended_keep ⟨d, subject⟩
    have hone : Extended k (k.attachOne subject parent quality d) :=
      hkeep.trans (hkeep.sound.extended_addChild (hkeep.lt_size hparent)
        (lt_size_of_kind? (kind?_of_find? find?_keep)))
    exact hone.trans (ih hone.sound (hone.lt_size hparent))

theorem extended_attachBelow (h : k.Sound) (hkind : ∀ key, kind ≠ .object key)
    (hroot : root < k.size) : Extended k (k.attachBelow kind subject root ds).1 := by
  have hpush := h.extended_push hkind
  have hnew : k.size < (k.push kind).1.size := size_push ▸ Nat.lt_succ_self k.size
  have hattach : Extended k (attach subject k.size .exact ds (k.push kind).1).1 :=
    hpush.trans (hpush.sound.extended_attach hnew)
  refine hattach.trans (hattach.sound.extended_addChild (hattach.lt_size hroot) ?_)
  exact Nat.lt_of_lt_of_le hnew (size_mono le_attach)

/-- What an outline is attached to is extended, and the nodes given are nodes. -/
theorem extended_attachTo (h : k.Sound) (hroot : root < k.size) (o : Outline) :
    Extended k (o.attachTo subject root k).1 ∧
      ∀ id ∈ (o.attachTo subject root k).2, id < (o.attachTo subject root k).1.size := by
  constructor
  · cases o with
    | link quality d => exact h.extended_attach hroot
    | junction j ds => exact h.extended_attachBelow j.kind_ne_object hroot
  · intro id hid
    obtain ⟨d, -, hf⟩ := (drawn_attachTo subject hroot).mem_leaves hid
    exact lt_size_of_kind? (kind?_of_find? hf)

/-! ### Grafts -/

/-- A graft under way has new links behind those that were there, from copies to copies. -/
theorem extended_grafted {s : Scion} {g : Grafting} (h : k.Sound) (hg : s.Grafted k g) :
    Extended k g.keeper where
  le := hg.le
  children id := by
    obtain ⟨es, hes, -⟩ := hg.kept id
    exact hes ▸ List.prefix_append _ _
  sound :=
    { unique := hg.unique
      target := fun id e he => by
        rcases hg.image id e he with he | ⟨i, -, e', -, htarget, -⟩
        · exact Nat.lt_of_lt_of_le (h.target id e he) (size_mono hg.le)
        · exact hg.lt _ _ htarget
      nodup := fun id => by
        obtain ⟨es, hes, hnodup, hnew⟩ := hg.kept id
        rw [hes]
        refine List.nodup_append'.2 ⟨h.nodup id, hnodup, ?_⟩
        exact fun e he he' => hnew e he' he }

theorem extended_graft (h : k.Sound) (hscratch : scratch.Sound) (hsource : source < scratch.size)
    (hleaves : ∀ id ∈ leaves, id < scratch.size) (htarget : target < k.size) :
    Extended k (k.graft subject scratch source target leaves rename).1 ∧
      ∀ id ∈ (k.graft subject scratch source target leaves rename).2,
        id < (k.graft subject scratch source target leaves rename).1.size := by
  let s : Scion := ⟨scratch, source, leaves, target, subject, rename⟩
  obtain ⟨g, copied, -, heq, hg, -, hcopied⟩ := Scion.exists_completed (s := s)
    (fun _ hr => hr.lt (fun id _ => hscratch.target id) hsource hleaves) h.unique htarget
  rw [show k.graft subject scratch source target leaves rename = (g.keeper, copied) from heq]
  refine ⟨h.extended_grafted hg, fun id hid => ?_⟩
  obtain ⟨i, hi⟩ := exists_forall₂_iff.1 ⟨_, hcopied.flip⟩ id hid
  exact hg.lt i id hi

end Sound

/-! ### The register -/

/-- The entries are the object nodes, with their parts. -/
theorem mem_entries : (key, id) ∈ k.kept.entries ↔ k.kind? id = some (.object key) := by
  have hkeys : (k.nodes.toList.map Node.object?)[id]? = some (some key) ↔
      k.object? id = some key := by
    rw [object?_eq, node?, List.getElem?_map, Array.getElem?_toList]
    cases k.nodes[id]? <;> simp
  rw [← object?_eq_some_iff, ← hkeys, k.kept.entries_eq, Register.listing, List.mem_filterMap]
  constructor
  · rintro ⟨⟨key?, i⟩, hmem, heq⟩
    obtain ⟨key', rfl, hpair⟩ := Option.map_eq_some_iff.1 heq
    obtain ⟨rfl, rfl⟩ := Prod.mk.inj hpair
    exact List.mk_mem_zipIdx_iff_getElem?.1 hmem
  · intro h
    exact ⟨(some key, id), List.mk_mem_zipIdx_iff_getElem?.2 h, rfl⟩

/-- No node is entered twice. -/
theorem nodup_numbers (k : Keeper) : (k.kept.entries.map Prod.snd).Nodup := by
  have hsub (n : Nat) (keys : List (Option ObjectKey)) :
      ((Register.listing n keys).map Prod.snd).Sublist (List.range' n keys.length) := by
    induction keys generalizing n with
    | nil => exact List.Sublist.refl []
    | cons key? keys ih =>
      rw [Register.listing_cons, List.length_cons, List.range'_succ]
      cases key? with
      | none => exact (ih (n + 1)).cons n
      | some key => exact (ih (n + 1)).cons_cons n
  rw [k.kept.entries_eq]
  exact (hsub 0 _).nodup List.nodup_range'

/-- No part is entered twice. -/
theorem Sound.nodup_parts (h : k.Sound) : (k.kept.entries.map Prod.fst).Nodup := by
  refine List.Nodup.map_on (fun e he e' he' heq => ?_) (nodup_numbers k).of_map
  obtain ⟨key, id⟩ := e
  obtain ⟨key', id'⟩ := e'
  obtain rfl : key = key' := heq
  exact Prod.ext rfl (h.unique id id' key (mem_entries.1 he) (mem_entries.1 he'))

theorem Sound.find?_eq_some_iff (h : k.Sound) :
    k.find? key = some id ↔ k.kind? id = some (.object key) :=
  ⟨kind?_of_find?, h.unique.find?⟩

end Lineage.Keeper
