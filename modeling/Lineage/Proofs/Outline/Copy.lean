import Lineage.Proofs.Outline.Answer

/-!
# Copies of answers

An outline determines what is below a node up to the numbers of the nodes. So
wherever a keeper shows the outline of an answer, it holds a copy of what the
witness attaches to a root that stands alone (`exists_isCopy`).
-/

namespace Lineage.Keeper

variable {k scratch : Keeper} {subject : FunctionId} {root node parent : NodeId} {key : ObjectKey}
  {quality : Quality} {ds : List Designator} {o : Outline}

/-- Below `node`, the keeper `k` holds what `scratch` holds below its node 0, as
    far as the nodes `leaves`; node `id` of `scratch` is node `φ id` of `k`. -/
structure IsCopy (scratch : Keeper) (leaves : List NodeId) (k : Keeper) (node : NodeId)
    (φ : NodeId → NodeId) : Prop where
  root : φ 0 = node
  root_not_mem : 0 ∉ leaves
  injective : ∀ i < scratch.size, ∀ j < scratch.size, φ i = φ j → i = j
  kind : ∀ id < scratch.size, k.kind? (φ id) = scratch.kind? id
  /-- The links are the same, in the same order. -/
  children : ∀ id < scratch.size, id ∉ leaves →
    k.children (φ id) = (scratch.children id).map fun e => ⟨φ e.target, e.quality⟩

/-- What is told of the parts is told of the links to them, in order. -/
theorem Showing.map_children {α : Type} {f : Edge → α} {g : Designator → α}
    (hs : k.Showing subject parent quality ds)
    (h : ∀ d ∈ ds, ∀ e, k.kind? e.target = some (.object ⟨d, subject⟩) → e.quality = quality →
      f e = g d) : (k.children parent).map f = ds.eraseDups.map g := by
  refine Eq.symm (List.forall₂_eq_eq_eq ▸ ?_)
  rw [List.forall₂_map_left_iff, List.forall₂_map_right_iff]
  exact hs.forall₂.imp fun d e he => (h d he.1 e he.2.1 he.2.2).symm

/-- The node that stands for a part. -/
def nodeOf (k : Keeper) (key : ObjectKey) : NodeId := (k.find? key).getD 0

theorem nodeOf_eq {id : NodeId} (hu : k.Unique) (hk : k.kind? id = some (.object key)) :
    k.nodeOf key = id := by
  rw [nodeOf, hu.find? hk]
  rfl

/-- The node that a node links to first. -/
def firstChild (k : Keeper) (node : NodeId) : NodeId :=
  ((k.children node).head?.map Edge.target).getD 0

theorem firstChild_eq {id : NodeId} {es : List Edge} (h : k.children node = ⟨id, quality⟩ :: es) :
    k.firstChild node = id := by
  rw [firstChild, h]
  rfl

/-- The node of `k` like a node of the scratch: nodes for parts correspond by
    their parts, and the other node, if there is one, joins the parts. -/
def counterpart (scratch k : Keeper) (node id : NodeId) : NodeId :=
  match scratch.kind? id with
  | some (.object key) => k.nodeOf key
  | _ => k.firstChild node

theorem counterpart_object {id : NodeId} (hk : scratch.kind? id = some (.object key)) :
    counterpart scratch k node id = k.nodeOf key := by
  rw [counterpart, hk]

theorem counterpart_of_ne_object {id : NodeId} {kind : NodeKind}
    (hk : scratch.kind? id = some kind) (hne : ∀ key, kind ≠ .object key) :
    counterpart scratch k node id = k.firstChild node := by
  rw [counterpart, hk]
  cases kind with
  | object key => exact absurd rfl (hne key)
  | _ => rfl

theorem Shows.exists_part {d : Designator} (hs : k.Shows subject node o) (hd : d ∈ o.parts) :
    ∃ id, k.kind? id = some (.object ⟨d, subject⟩) := by
  cases o with
  | link quality d' =>
    obtain rfl := List.mem_singleton.1 hd
    obtain ⟨id, -, hk⟩ := hs
    exact ⟨id, hk⟩
  | junction j ds =>
    obtain ⟨_, -, -, hs⟩ := hs
    obtain ⟨id, hk, -⟩ := hs.exists_link hd
    exact ⟨id, hk⟩

/-- The nodes of a scratch are the root, the nodes for the parts, and maybe one
    that joins these. -/
theorem Drawn.kind_cases {leaves : List NodeId} {id : NodeId} {kind : NodeKind}
    (hd : Drawn (empty.keep key).1 scratch subject 0 o leaves) (hk : scratch.kind? id = some kind) :
    id = 0 ∧ kind = .object key ∨ (id ∈ leaves ∧ ∃ d ∈ o.parts, kind = .object ⟨d, subject⟩) ∨
      scratch.children 0 = [⟨id, .exact⟩] ∧ ∀ key, kind ≠ .object key := by
  rcases Nat.eq_zero_or_pos id with rfl | hpos
  · have h := hd.le _ _ kind?_keep_empty
    exact .inl ⟨rfl, Option.some.inj (hk.symm.trans h)⟩
  · rcases hd.fresh id kind hk (size_keep_empty ▸ hpos) with ⟨hmem, -, hpart⟩ | ⟨hc, hne⟩
    · exact .inr (.inl ⟨hmem, hpart⟩)
    · rw [children_keep] at hc
      exact .inr (.inr ⟨hc, hne⟩)

/-- The root of a scratch links to the node that joins the parts. -/
theorem Drawn.children_root {leaves : List NodeId} {id : NodeId} {kind : NodeKind}
    (hd : Drawn (empty.keep key).1 scratch subject 0 o leaves) (hk : scratch.kind? id = some kind)
    (hne : ∀ key, kind ≠ .object key) : scratch.children 0 = [⟨id, .exact⟩] := by
  rcases hd.kind_cases hk with ⟨-, rfl⟩ | ⟨-, d, -, rfl⟩ | ⟨hc, -⟩
  · exact absurd rfl (hne key)
  · exact absurd rfl (hne _)
  · exact hc

/-- Counterparts are of the same kind. -/
theorem Drawn.kind?_counterpart {leaves : List NodeId} {id : NodeId} {kind : NodeKind}
    (hd : Drawn (empty.keep key).1 scratch subject 0 o leaves)
    (hs' : scratch.Shows subject 0 o) (hu : k.Unique) (hk : k.kind? node = some (.object key))
    (hs : k.Shows subject node o) (hid : scratch.kind? id = some kind) :
    k.kind? (counterpart scratch k node id) = some kind := by
  rcases hd.kind_cases hid with ⟨rfl, rfl⟩ | ⟨-, d, hd, rfl⟩ | ⟨hc, hne⟩
  · rw [counterpart_object hid, nodeOf_eq hu hk, hk]
  · obtain ⟨id', hk'⟩ := hs.exists_part hd
    rw [counterpart_object hid, nodeOf_eq hu hk', hk']
  · obtain ⟨j, ds, rfl, rfl, -⟩ := hs'.eq_junction hc hid hne
    obtain ⟨middle, hc', hmiddle, -⟩ := hs
    rw [counterpart_of_ne_object hid hne, firstChild_eq hc', hmiddle]

/-- The only node that stands for no part joins the parts, so no two nodes of a
    scratch have the same counterpart. -/
theorem Drawn.eq_of_kind? {leaves : List NodeId} {i j : NodeId} {kind : NodeKind}
    (hd : Drawn (empty.keep key).1 scratch subject 0 o leaves) (hu : scratch.Unique)
    (hi : scratch.kind? i = some kind) (hj : scratch.kind? j = some kind) : i = j := by
  rcases kind.object_or with ⟨key', rfl⟩ | hne
  · exact hu i j key' hi hj
  · have hc := (hd.children_root hi hne).symm.trans (hd.children_root hj hne)
    exact (Edge.mk.inj (List.singleton_inj.1 hc)).1

/-- The links of the root have counterparts. -/
theorem Shows.children_counterpart (hs : k.Shows subject node o)
    (hs' : scratch.Shows subject root o) (hu : k.Unique) :
    k.children node = (scratch.children root).map fun e =>
      ⟨counterpart scratch k node e.target, e.quality⟩ := by
  cases o with
  | link quality d =>
    obtain ⟨child, hc, hchild⟩ := hs
    obtain ⟨child', hc', hchild'⟩ := hs'
    rw [hc, hc', List.map_singleton, counterpart_object hchild', nodeOf_eq hu hchild]
  | junction j ds =>
    obtain ⟨middle, hc, -, -⟩ := hs
    obtain ⟨middle', hc', hmiddle', -⟩ := hs'
    rw [hc, hc', List.map_singleton, counterpart_of_ne_object hmiddle' j.kind_ne_object,
      firstChild_eq hc]

/-- The links to the parts have counterparts. -/
theorem Showing.children_counterpart {middle middle' : NodeId}
    (hs : k.Showing subject middle quality ds) (hs' : scratch.Showing subject middle' quality ds)
    (hu : k.Unique) : k.children middle = (scratch.children middle').map fun e =>
      ⟨counterpart scratch k node e.target, e.quality⟩ := by
  -- Both are the links to the nodes of `k` for the parts.
  let link (d : Designator) : Edge := ⟨k.nodeOf ⟨d, subject⟩, quality⟩
  have hlinks : (k.children middle).map id = ds.eraseDups.map link :=
    hs.map_children fun d _ e he hq => by
      change e = ⟨k.nodeOf ⟨d, subject⟩, quality⟩
      rw [nodeOf_eq hu he, ← hq]
  rw [List.map_id] at hlinks
  rw [hlinks]
  exact (hs'.map_children fun d _ e he hq => by rw [counterpart_object he, hq]).symm

/-- Where the outline of a scratch is shown, there is a copy of the scratch. -/
theorem exists_isCopy (hne : ∀ d ∈ o.parts, ⟨d, subject⟩ ≠ key) (hu : k.Unique)
    (hk : k.kind? node = some (.object key)) (hs : k.Shows subject node o) :
    ∃ φ, IsCopy (o.attachTo subject 0 (empty.keep key).1).1
      (o.attachTo subject 0 (empty.keep key).1).2 k node φ := by
  have hpos : 0 < (empty.keep key).1.size := size_keep_empty ▸ Nat.one_pos
  have hd := drawn_attachTo (o := o) subject hpos
  generalize (o.attachTo subject 0 (empty.keep key).1).1 = scratch at hd ⊢
  generalize (o.attachTo subject 0 (empty.keep key).1).2 = leaves at hd ⊢
  have hu' : scratch.Unique := hd.unique unique_empty.keep
  have hs' : scratch.Shows subject 0 o := hd.shows unique_empty.keep hpos children_keep
  have hroot : scratch.kind? 0 = some (.object key) := hd.le _ _ kind?_keep_empty
  have hφroot : counterpart scratch k node 0 = node := by
    rw [counterpart_object hroot, nodeOf_eq hu hk]
  refine ⟨counterpart scratch k node, ?_⟩
  constructor
  case root => exact hφroot
  case root_not_mem =>
    intro hmem
    obtain ⟨d, hpart, hf⟩ := hd.mem_leaves hmem
    rw [kind?_of_find? hf] at hroot
    exact hne d hpart (NodeKind.object.inj (Option.some.inj hroot))
  case injective =>
    intro i hi j hj hij
    obtain ⟨kind, hi⟩ := exists_kind? hi
    obtain ⟨kind', hj⟩ := exists_kind? hj
    have heq := hd.kind?_counterpart hs' hu hk hs hi
    rw [hij, hd.kind?_counterpart hs' hu hk hs hj] at heq
    obtain rfl := Option.some.inj heq
    exact hd.eq_of_kind? hu' hi hj
  case kind =>
    intro id hid
    obtain ⟨kind, hid⟩ := exists_kind? hid
    rw [hd.kind?_counterpart hs' hu hk hs hid, hid]
  case children =>
    intro i hi hleaf
    obtain ⟨kind, hi⟩ := exists_kind? hi
    rcases hd.kind_cases hi with ⟨rfl, rfl⟩ | ⟨hmem, -⟩ | ⟨hc, hne⟩
    · rw [hφroot]
      exact hs.children_counterpart hs' hu
    · exact absurd hmem hleaf
    · obtain ⟨j, ds, rfl, rfl, hs'⟩ := hs'.eq_junction hc hi hne
      obtain ⟨middle, hc', -, hs⟩ := hs
      rw [counterpart_of_ne_object hi hne, firstChild_eq hc']
      exact hs.children_counterpart hs' hu

end Lineage.Keeper
