import Lineage.Proofs.Trace.Tree

/-!
# Trees within trees

Traces of the same part differ by the nodes that they expand, and by nothing else:
if one expands all that another does, it has each node and link of the other, and
at the nodes that the other expands no others (`Grown.exists_isPart`).

Nodes that stand for parts correspond by these parts. AND and OR nodes correspond by
the node that links to them: each has one, and what explains that is the same.
-/

namespace Lineage

namespace Tree

/-- The part has a node, and the node has links. -/
def Expands (t : Tree) (key : ObjectKey) : Prop :=
  ∃ id, t.kind? id = some (.object key) ∧ t.children id ≠ []

/-- The nodes and links of `t` are in `t'`, node `id` as node `φ id`; a node with
    links has no others there. -/
structure IsPart (t t' : Tree) (φ : NodeId → NodeId) : Prop where
  root : φ t.root = t'.root
  kind : ∀ id < t.size, t'.kind? (φ id) = t.kind? id
  injective : ∀ i < t.size, ∀ j < t.size, φ i = φ j → i = j
  children : ∀ id < t.size, t.children id ≠ [] →
    t'.children (φ id) = (t.children id).map fun e => ⟨φ e.target, e.quality⟩

variable {t t' : Tree} {φ : NodeId → NodeId} {id : NodeId} {key : ObjectKey}

theorem lt_size_of_children (h : t.children id ≠ []) : id < t.size := by
  refine Decidable.by_contra fun hn => h ?_
  rw [Tree.children, Array.getElem?_eq_none (Nat.not_lt.1 hn)]
  rfl

instance (t : Tree) (key : ObjectKey) : Decidable (t.Expands key) :=
  decidable_of_iff (∃ id < t.size, t.kind? id = some (.object key) ∧ t.children id ≠ [])
    ⟨fun ⟨id, _, h⟩ => ⟨id, h⟩, fun ⟨id, hk, hc⟩ => ⟨id, lt_size_of_children hc, hk, hc⟩⟩

theorem IsPart.expands (h : t.IsPart t' φ) (hexp : t.Expands key) : t'.Expands key := by
  obtain ⟨id, hk, hc⟩ := hexp
  have hid := lt_size_of_children hc
  refine ⟨φ id, (h.kind id hid).trans hk, ?_⟩
  rw [h.children id hid hc]
  exact fun hnil => hc (List.map_eq_nil_iff.1 hnil)

end Tree

namespace Keeper

/-- Node `id` of one keeper joins what explains the part that `parent` stands for. So
    does node `id'` of the other, where `node` stands for the part. -/
structure JoinedAlike (k k' : Keeper) (parent id node id' : NodeId) (kind : NodeKind) : Prop where
  object : ∃ key, k.kind? parent = some (.object key) ∧ k'.kind? node = some (.object key)
  joined : k.Joined id parent
  children : k'.children node = [⟨id', .exact⟩]
  kind : k'.kind? id' = some kind
  showing : ∃ subject ds, k.Showing subject id .exact ds ∧ k'.Showing subject id' .exact ds

/-- The nodes of one keeper have nodes like them in the other: `φ id` for `id`. -/
structure Corresponds (k k' : Keeper) (φ : NodeId → NodeId) : Prop where
  object : ∀ id key, k.kind? id = some (.object key) → k'.kind? (φ id) = some (.object key)
  joined : ∀ id kind, k.kind? id = some kind → (∀ key, kind ≠ .object key) →
    ∃ parent, JoinedAlike k k' parent id (φ parent) (φ id) kind

variable {k k' : Keeper} {φ : NodeId → NodeId} {id parent : NodeId} {kind : NodeKind}
  {key : ObjectKey} {subject : FunctionId} {o : Outline}

namespace Corresponds

theorem kind_eq (h : Corresponds k k' φ) (hk : k.kind? id = some kind) :
    k'.kind? (φ id) = some kind := by
  rcases kind.object_or with ⟨key, rfl⟩ | hne
  · exact h.object id key hk
  · obtain ⟨parent, hp⟩ := h.joined id kind hk hne
    exact hp.kind

theorem eq_of_eq (h : Corresponds k k' φ) (hu : k.Unique) {j : NodeId}
    (hi : k.kind? id = some kind) (hj : k.kind? j = some kind) (heq : φ id = φ j)
    (hjoined : ∀ id kind, k'.kind? id = some kind → (∀ key, kind ≠ .object key) →
      ∃ parent, k'.Joined id parent) : id = j := by
  rcases kind.object_or with ⟨key, rfl⟩ | hne
  · exact hu id j key hi hj
  · -- The nodes that link to both correspond to the same, so they are the same, and
    -- this links to one node only.
    obtain ⟨p, hp⟩ := h.joined id kind hi hne
    obtain ⟨q, hq⟩ := h.joined j kind hj hne
    obtain ⟨parent, hparent⟩ := hjoined _ kind hp.kind hne
    have hpp : φ p = parent :=
      hparent.eq_parent _ _ (hp.children ▸ List.mem_cons_self) rfl
    have hqp : φ q = parent :=
      hparent.eq_parent _ _ (hq.children ▸ List.mem_cons_self) heq.symm
    obtain ⟨key, hkp, hkp'⟩ := hp.object
    obtain ⟨key', hkq, hkq'⟩ := hq.object
    rw [hpp] at hkp'
    rw [hqp] at hkq'
    obtain rfl := NodeKind.object.inj (Option.some.inj (hkp'.symm.trans hkq'))
    obtain rfl := hu p q key hkp hkq
    have hc := hp.joined.children.symm.trans hq.joined.children
    exact (Edge.mk.inj (List.singleton_inj.1 hc)).1

/-- Links of a node for a part correspond. -/
theorem children_object (h : Corresponds k k' φ) (hu : k'.Unique) (hs : k.Shows subject id o)
    (hs' : k'.Shows subject (φ id) o) :
    k'.children (φ id) = (k.children id).map fun e => ⟨φ e.target, e.quality⟩ := by
  cases o with
  | link quality d =>
    obtain ⟨child, hc, hchild⟩ := hs
    obtain ⟨child', hc', hchild'⟩ := hs'
    rw [hc, hc', List.map_singleton, hu _ _ _ (h.object child _ hchild) hchild']
  | junction j ds =>
    obtain ⟨middle, hc, hmiddle, -⟩ := hs
    obtain ⟨parent, hp⟩ := h.joined middle _ hmiddle fun key => j.kind_ne_object key
    obtain rfl : id = parent := hp.joined.eq_parent id _ (hc ▸ List.mem_cons_self) rfl
    rw [hc, hp.children, List.map_singleton]

/-- Links of a node that joins parts correspond. -/
theorem children_joined (h : Corresponds k k' φ) (hu : k'.Unique) {ds : List Designator}
    (hs : k.Showing subject id .exact ds) (hs' : k'.Showing subject (φ id) .exact ds) :
    k'.children (φ id) = (k.children id).map fun e => ⟨φ e.target, e.quality⟩ := by
  have hc : k'.children (φ id) = (k.children id).map fun e =>
      ⟨counterpart k k' (φ id) e.target, e.quality⟩ := hs'.children_counterpart hs hu
  rw [hc]
  refine List.map_congr_left fun e he => ?_
  obtain ⟨d, -, hk, -⟩ := hs.exists_part he
  rw [counterpart_object hk, nodeOf_eq hu (h.object _ _ hk)]

end Corresponds

end Keeper

namespace Tracer.Grown

open Keeper

variable {w : Wiring} {query : Query} {key key' : ObjectKey} {s s' : Tracing} {id node : NodeId}
  {subject : FunctionId} {o : Outline} {kind : NodeKind}

/-- The node of a part that is expanded shows what explains it. -/
theorem shows_of_expands (h : Grown w query key s) (he : (s.keeper.toTree 0).Expands key')
    (hr : w.rule query key' = some (subject, o))
    (hk : s.keeper.kind? node = some (.object key')) : s.keeper.Shows subject node o := by
  obtain ⟨id, hid, hc⟩ := he
  obtain rfl : id = node := h.unique id node key' hid hk
  have ho := h.obeys_of_children hid hc
  rw [hr] at ho
  exact ho

variable (hexp : ∀ key', (s.keeper.toTree 0).Expands key' → (s'.keeper.toTree 0).Expands key')
include hexp

/-- What is below a node of one trace is below the node for the same part of the
    other. -/
theorem exists_shows_of_expands (h : Grown w query key s) (h' : Grown w query key s')
    (hk : s.keeper.kind? id = some (.object key')) (hc : s.keeper.children id ≠ []) :
    ∃ subject o node, w.rule query key' = some (subject, o) ∧ s.keeper.Shows subject id o ∧
      s'.keeper.kind? node = some (.object key') ∧ s'.keeper.Shows subject node o := by
  obtain ⟨e, he⟩ := List.exists_mem_of_ne_nil _ hc
  obtain ⟨subject, o, hr, hs⟩ := h.exists_shows hk he
  have hexp' := hexp key' ⟨id, hk, hc⟩
  have ⟨node, hnode, _⟩ := hexp'
  exact ⟨subject, o, node, hr, hs, hnode, h'.shows_of_expands hexp' hr hnode⟩

/-- What an AND or OR node of one trace joins is joined in the other. -/
theorem exists_joinedAlike (h : Grown w query key s) (h' : Grown w query key s')
    (hk : s.keeper.kind? id = some kind) (hne : ∀ key, kind ≠ .object key) :
    ∃ parent node id', JoinedAlike s.keeper s'.keeper parent id node id' kind := by
  obtain ⟨parent, key', subject, j, ds, hj, hp, hr, rfl, hs⟩ := h.exists_junction hk hne
  have hc : s.keeper.children parent ≠ [] := hj.children ▸ List.cons_ne_nil _ _
  obtain ⟨_, _, node, hr', -, hnode, hs'⟩ := exists_shows_of_expands hexp h h' hp hc
  obtain ⟨rfl, rfl⟩ := Prod.mk.inj (Option.some.inj (hr.symm.trans hr'))
  obtain ⟨middle, hc', hmiddle, hs'⟩ := hs'
  exact ⟨parent, node, middle, ⟨key', hp, hnode⟩, hj, hc', hmiddle, subject, ds, hs, hs'⟩

/-- Each part that has a node in one trace has one in the other. -/
theorem exists_kind?_of_expands (h : Grown w query key s) (h' : Grown w query key s')
    (hk : s.keeper.kind? id = some (.object key')) :
    ∃ node, s'.keeper.kind? node = some (.object key') := by
  rcases (h.linked id _ hk).cases_tail with rfl | ⟨i, -, e, he, rfl⟩
  · obtain rfl := NodeKind.object.inj (Option.some.inj (h.root.symm.trans hk))
    exact ⟨0, h'.root⟩
  · obtain ⟨kind, hi⟩ := exists_kind? (lt_size_of_mem_children he)
    rcases kind.object_or with ⟨key'', rfl⟩ | hne
    · -- The node of a part links to the part, or it links to a node of another kind.
      obtain ⟨subject, o, node, -, hs, -, hs'⟩ :=
        exists_shows_of_expands hexp h h' hi (List.ne_nil_of_mem he)
      cases o with
      | link quality d =>
        obtain ⟨child, hc, hchild⟩ := hs
        obtain rfl := List.mem_singleton.1 (hc ▸ he)
        obtain rfl := NodeKind.object.inj (Option.some.inj (hchild.symm.trans hk))
        obtain ⟨child', -, hchild'⟩ := hs'
        exact ⟨child', hchild'⟩
      | junction j ds =>
        obtain ⟨middle, hc, hmiddle, -⟩ := hs
        obtain rfl := List.mem_singleton.1 (hc ▸ he)
        exact absurd (Option.some.inj (hmiddle.symm.trans hk)) (j.kind_ne_object _)
    · obtain ⟨_, _, _, -, -, -, -, _, _, hs, hs'⟩ := exists_joinedAlike hexp h h' hi hne
      obtain ⟨d, hd, hk', -⟩ := hs.exists_part he
      obtain rfl := NodeKind.object.inj (Option.some.inj (hk'.symm.trans hk))
      obtain ⟨node, hnode, -⟩ := hs'.exists_link hd
      exact ⟨node, hnode⟩

theorem exists_corresponds (h : Grown w query key s) (h' : Grown w query key s') :
    ∃ φ, Corresponds s.keeper s'.keeper φ := by
  have hnode (id : NodeId) : ∃ node, ∀ kind, s.keeper.kind? id = some kind →
      (∀ key, kind ≠ .object key) →
      ∃ parent id', JoinedAlike s.keeper s'.keeper parent id node id' kind := by
    by_cases hid : ∃ kind, s.keeper.kind? id = some kind ∧ ∀ key, kind ≠ .object key
    · obtain ⟨kind, hk, hne⟩ := hid
      obtain ⟨parent, node, id', hp⟩ := exists_joinedAlike hexp h h' hk hne
      refine ⟨node, fun kind' hk' _ => ⟨parent, id', ?_⟩⟩
      obtain rfl := Option.some.inj (hk.symm.trans hk')
      exact hp
    · exact ⟨0, fun kind hk hne => absurd ⟨kind, hk, hne⟩ hid⟩
  choose node hnode using hnode
  have hobject (id key') (hk : s.keeper.kind? id = some (.object key')) :
      s'.keeper.kind? (counterpart s.keeper s'.keeper (node id) id) = some (.object key') := by
    obtain ⟨id', hk'⟩ := exists_kind?_of_expands hexp h h' hk
    rw [counterpart_object hk, nodeOf_eq h'.unique hk', hk']
  refine ⟨fun id => counterpart s.keeper s'.keeper (node id) id, hobject, fun id kind hk hne => ?_⟩
  obtain ⟨parent, id', hp⟩ := hnode id kind hk hne
  obtain ⟨key', hkp, hkp'⟩ := hp.object
  refine ⟨parent, ?_⟩
  rw [counterpart_of_ne_object hk hne, firstChild_eq hp.children,
    h'.unique _ _ _ (hobject parent key' hkp) hkp']
  exact hp

/-- A trace that expands all that another does contains the other. -/
theorem exists_isPart (h : Grown w query key s) (h' : Grown w query key s') :
    ∃ φ, (s.keeper.toTree 0).IsPart (s'.keeper.toTree 0) φ := by
  obtain ⟨φ, hφ⟩ := exists_corresponds hexp h h'
  refine ⟨φ, ?_⟩
  constructor
  case root => exact h'.unique _ _ _ (hφ.object 0 key h.root) h'.root
  case kind =>
    intro id hid
    obtain ⟨kind, hk⟩ := exists_kind? hid
    exact (hφ.kind_eq hk).trans hk.symm
  case injective =>
    intro i hi j hj hij
    obtain ⟨kind, hi⟩ := exists_kind? hi
    obtain ⟨kind', hj⟩ := exists_kind? hj
    have heq := hφ.kind_eq hi
    rw [hij, hφ.kind_eq hj] at heq
    obtain rfl := Option.some.inj heq
    refine hφ.eq_of_eq h.unique hi hj hij fun id kind hk hne => ?_
    obtain ⟨parent, hp⟩ := h'.joined id kind hk hne
    exact ⟨parent, hp⟩
  case children =>
    intro id hid hc
    obtain ⟨kind, hk⟩ := exists_kind? hid
    rcases kind.object_or with ⟨key', rfl⟩ | hne
    · obtain ⟨subject, o, node, -, hs, hk', hs'⟩ := exists_shows_of_expands hexp h h' hk hc
      obtain rfl := h'.unique _ _ _ (hφ.object id key' hk) hk'
      exact hφ.children_object h'.unique hs hs'
    · obtain ⟨parent, hp⟩ := hφ.joined id kind hk hne
      obtain ⟨subject, ds, hs, hs'⟩ := hp.showing
      exact hφ.children_joined h'.unique hs hs'

end Tracer.Grown

end Lineage
