import Lineage.Proofs.Outline.Graft
import Mathlib.Data.List.Perm.Subperm

/-!
# Grafts under way

A graft copies nodes and links, one at a time (`Scion.Step`). Whatever the order,
each moment satisfies `Scion.Grafted`: every node that has been copied has one copy,
which is a node for the renamed part, found or made now, or an AND or OR node of its
own; every link that is new is the image of a link of the scratch; and the nodes and
links that were there are there, and are as they were.

* `Grafted.step` and `Grafted.run`: steps keep the invariant;
* `Grafted.length_le`: no more nodes are copied than the scratch has.
-/

namespace Lineage

/-- What is grafted, and where. -/
structure Scion where
  scratch : Keeper
  /-- The node of the scratch whose links are copied. -/
  source : NodeId
  /-- The nodes of the scratch that are copied after that. -/
  leaves : List NodeId
  /-- The node that stands for the source from now on. -/
  target : NodeId
  /-- The function of which the copies stand for parts. -/
  subject : FunctionId
  rename : Designator → Designator

/-- The kind of a copy. -/
def NodeKind.renamed (subject : FunctionId) (f : Designator → Designator) : NodeKind → NodeKind
  | object key => object ⟨f key.designator, subject⟩
  | and => and
  | or => or

namespace Keeper

variable {k k' : Keeper} {kind : NodeKind} {copied id : NodeId}

/-- From `k` to `k'`, there is a node of the given kind, `copied`: one that was there and stands
    for the part, or a new one without links. -/
structure Made (k k' : Keeper) (kind : NodeKind) (copied : NodeId) : Prop where
  le : k ≤ k'
  unique : k.Unique → k'.Unique
  children : ∀ id, k'.children id = k.children id
  new : ∀ id < k'.size, id < k.size ∨ id = copied
  fresh : (∀ key, kind ≠ .object key) → copied = k.size
  kind : k'.kind? copied = some kind

theorem made_push (h : ∀ key, kind ≠ .object key) :
    Made k (k.push kind).1 kind (k.push kind).2 where
  le := le_push
  unique hu := hu.push h
  children _ := children_push
  kind := kind?_push.trans (if_pos rfl)
  new id hid := by
    rw [size_push] at hid
    exact Nat.lt_or_eq_of_le (Nat.le_of_lt_succ hid)
  fresh _ := rfl

theorem made_keep {key : ObjectKey} : Made k (k.keep key).1 (.object key) (k.keep key).2 where
  le := le_keep
  unique hu := hu.keep
  children _ := children_keep
  kind := kind?_of_find? find?_keep
  new id hid := by
    obtain ⟨kind, hk⟩ := exists_kind? hid
    exact (kind?_keep hk).imp lt_size_of_kind? And.left
  fresh h := absurd rfl (h key)

theorem made_copyNode (k : Keeper) (subject : FunctionId) (f : Designator → Designator)
    (kind : NodeKind) : Made k (k.copyNode subject f kind).1 (kind.renamed subject f)
      (k.copyNode subject f kind).2 := by
  cases kind with
  | object key => exact made_keep
  | and => exact made_push fun _ => nofun
  | or => exact made_push fun _ => nofun

end Keeper

namespace Scion

open Keeper

variable {s : Scion} {k : Keeper} {g g' : Grafting} {id copied : NodeId} {kind : NodeKind}
  {e : Edge}

/-- Links lead to the node from the source or from a leaf. -/
def Reached (s : Scion) (id : NodeId) : Prop :=
  ∃ start ∈ s.source :: s.leaves, Relation.ReflTransGen s.scratch.Linked start id

/-- An AND or OR node that gets a copy. -/
def Joint (s : Scion) (id : NodeId) : Prop :=
  id ≠ s.source ∧ (s.scratch.kind? id = some .and ∨ s.scratch.kind? id = some .or)

/-- Its copy is of its kind. -/
theorem Joint.exists_kind (h : s.Joint id) : ∃ kind, s.scratch.kind? id = some kind ∧
    (∀ key, kind ≠ .object key) ∧ kind.renamed s.subject s.rename = kind := by
  rcases h.2 with hk | hk
  · exact ⟨_, hk, fun _ => nofun, rfl⟩
  · exact ⟨_, hk, fun _ => nofun, rfl⟩

theorem reached_source : s.Reached s.source := ⟨s.source, List.mem_cons_self, .refl⟩

theorem reached_leaf (h : id ∈ s.leaves) : s.Reached id := ⟨id, List.mem_cons_of_mem _ h, .refl⟩

theorem Reached.target (h : s.Reached id) (he : e ∈ s.scratch.children id) :
    s.Reached e.target := by
  obtain ⟨start, hstart, h⟩ := h
  exact ⟨start, hstart, h.tail ⟨e, he, rfl⟩⟩

/-- A graft begins with the target in place of the source. -/
def start (s : Scion) (k : Keeper) : Grafting := ⟨k, [(s.source, s.target)]⟩

/-- A node is copied that has not been, or a link between nodes that have been. -/
inductive Step (s : Scion) (g : Grafting) : Grafting → Prop where
  | node {id : NodeId} {kind : NodeKind} (hr : s.Reached id) (hn : g.copies.lookup id = none)
    (hk : s.scratch.kind? id = some kind) :
    Step s g ⟨(g.keeper.copyNode s.subject s.rename kind).1,
      (id, (g.keeper.copyNode s.subject s.rename kind).2) :: g.copies⟩
  | link {id copied child : NodeId} {e : Edge} (he : e ∈ s.scratch.children id)
    (hid : g.copies.lookup id = some copied) (hchild : g.copies.lookup e.target = some child) :
    Step s g ⟨g.keeper.addChild copied child e.quality, g.copies⟩

/-- Several steps. -/
abbrev Run (s : Scion) : Grafting → Grafting → Prop := Relation.ReflTransGen s.Step

/-! ### Copies that are known -/

theorem lookup_cons_iff {copies : List (NodeId × NodeId)} {id' copied' : NodeId}
    (hn : copies.lookup id = none) : ((id, copied) :: copies).lookup id' = some copied' ↔
      id' = id ∧ copied' = copied ∨ copies.lookup id' = some copied' := by
  rw [List.lookup_cons]
  by_cases h : id' = id
  · subst h
    simp [hn, eq_comm]
  · simp [h, beq_eq_false_iff_ne.2 h]

theorem mem_keys_iff {copies : List (NodeId × NodeId)} :
    id ∈ copies.map Prod.fst ↔ ∃ copied, copies.lookup id = some copied := by
  induction copies with
  | nil => simp
  | cons c copies ih =>
    obtain ⟨i, copied⟩ := c
    rw [List.map_cons, List.mem_cons, List.lookup_cons, ih]
    by_cases h : id = i
    · simp [h]
    · simp [h, beq_eq_false_iff_ne.2 h]

theorem Step.onward (h : s.Step g g') : Onward g g' := fun id copied hid => by
  cases h with
  | node _ hn _ => exact (lookup_cons_iff hn).2 (.inr hid)
  | link => exact hid

theorem Run.onward (h : s.Run g g') : Onward g g' := by
  induction h with
  | refl => exact fun _ _ hid => hid
  | tail _ hs ih => exact fun id copied hid => hs.onward id copied (ih id copied hid)

/-- Links stay. -/
theorem Step.mem_children (h : s.Step g g') (he : e ∈ g.keeper.children id) :
    e ∈ g'.keeper.children id := by
  cases h with
  | @node _ kind _ _ _ =>
    rw [(made_copyNode g.keeper s.subject s.rename kind).children]
    exact he
  | @link _ copied child e' _ _ _ =>
    by_cases hid : id = copied
    · subst hid
      rw [children_addChild (lt_size_of_mem_children he), if_pos rfl]
      exact mem_addLink.2 (.inl he)
    · rwa [children_addChild_of_ne hid]

theorem Run.mem_children (h : s.Run g g') (he : e ∈ g.keeper.children id) :
    e ∈ g'.keeper.children id := by
  induction h with
  | refl => exact he
  | tail _ hs ih => exact hs.mem_children ih

theorem Step.length_le (h : s.Step g g') : g.copies.length ≤ g'.copies.length := by
  cases h with
  | node => exact Nat.le_succ _
  | link => exact Nat.le_refl _

theorem Run.length_le (h : s.Run g g') : g.copies.length ≤ g'.copies.length := by
  induction h with
  | refl => exact Nat.le_refl _
  | tail _ hs ih => exact Nat.le_trans ih hs.length_le

/-- What holds of a graft onto the keeper `k` at every moment. -/
structure Grafted (s : Scion) (k : Keeper) (g : Grafting) : Prop where
  le : k ≤ g.keeper
  unique : g.keeper.Unique
  source : g.copies.lookup s.source = some s.target
  nodup : (g.copies.map Prod.fst).Nodup
  reached : ∀ id copied, g.copies.lookup id = some copied → s.Reached id
  lt : ∀ id copied, g.copies.lookup id = some copied → copied < g.keeper.size
  /-- A copy is of the kind of the node, but for the name of a part. -/
  kind : ∀ id copied kind, g.copies.lookup id = some copied → id ≠ s.source →
    s.scratch.kind? id = some kind →
    g.keeper.kind? copied = some (kind.renamed s.subject s.rename)
  /-- The copies of AND and OR nodes are new. -/
  fresh : ∀ id copied, g.copies.lookup id = some copied → s.Joint id → k.size ≤ copied
  /-- No two of them have the same copy. -/
  distinct : ∀ i j copied, g.copies.lookup i = some copied → g.copies.lookup j = some copied →
    s.Joint i → s.Joint j → i = j
  /-- All that is new is a copy. -/
  new : ∀ id, k.size ≤ id → id < g.keeper.size →
    ∃ i ≠ s.source, g.copies.lookup i = some id
  /-- The links that were there are there, and no other link is there twice. -/
  kept : ∀ id, ∃ es, g.keeper.children id = k.children id ++ es ∧ es.Nodup ∧
    ∀ e ∈ es, e ∉ k.children id
  /-- The others are images of links of the scratch. -/
  image : ∀ id, ∀ e ∈ g.keeper.children id, e ∈ k.children id ∨
    ∃ i, g.copies.lookup i = some id ∧ ∃ e' ∈ s.scratch.children i,
      g.copies.lookup e'.target = some e.target ∧ e.quality = e'.quality

theorem grafted_start (hu : k.Unique) (ht : s.target < k.size) : s.Grafted k (s.start k) := by
  have hstart {i copied : NodeId} (h : (s.start k).copies.lookup i = some copied) :
      i = s.source ∧ copied = s.target :=
    ((lookup_cons_iff rfl).1 h).resolve_right nofun
  constructor
  case le => exact le_refl k
  case unique => exact hu
  case source => exact (lookup_cons_iff rfl).2 (.inl ⟨rfl, rfl⟩)
  case nodup => exact List.nodup_singleton _
  case reached => exact fun id copied h => (hstart h).1 ▸ reached_source
  case lt => exact fun id copied h => (hstart h).2 ▸ ht
  case kind => exact fun id copied kind h hne => absurd (hstart h).1 hne
  case fresh => exact fun id copied h hjoint => absurd (hstart h).1 hjoint.1
  case distinct => exact fun i j copied hi hj _ _ => (hstart hi).1.trans (hstart hj).1.symm
  case new => exact fun id hge hlt => absurd hlt (Nat.not_lt.2 hge)
  case kept => exact fun id => ⟨[], (List.append_nil _).symm, List.nodup_nil, fun _ => nofun⟩
  case image => exact fun id e he => .inl he

namespace Grafted

/-- A node is copied. -/
theorem node (h : s.Grafted k g) (hr : s.Reached id) (hn : g.copies.lookup id = none)
    (hk : s.scratch.kind? id = some kind) :
    s.Grafted k ⟨(g.keeper.copyNode s.subject s.rename kind).1,
      (id, (g.keeper.copyNode s.subject s.rename kind).2) :: g.copies⟩ := by
  have hmade := made_copyNode g.keeper s.subject s.rename kind
  generalize (g.keeper.copyNode s.subject s.rename kind).1 = k',
    (g.keeper.copyNode s.subject s.rename kind).2 = copied at hmade
  have hne : id ≠ s.source := fun he => by
    rw [he, h.source] at hn
    exact absurd hn nofun
  -- An AND or OR node is copied to a node behind all others.
  have hjoint (h : s.Joint id) : copied = g.keeper.size := by
    obtain ⟨kind', hk', hne, hrenamed⟩ := h.exists_kind
    obtain rfl := Option.some.inj (hk.symm.trans hk')
    exact hmade.fresh (hrenamed.symm ▸ hne)
  have hmono {i c : NodeId} (hi : g.copies.lookup i = some c) :
      ((id, copied) :: g.copies).lookup i = some c := (lookup_cons_iff hn).2 (.inr hi)
  constructor
  case le => exact h.le.trans hmade.le
  case unique => exact hmade.unique h.unique
  case source => exact hmono h.source
  case nodup =>
    refine List.nodup_cons.2 ⟨fun hmem => ?_, h.nodup⟩
    obtain ⟨c, hc⟩ := mem_keys_iff.1 hmem
    exact absurd (hn.symm.trans hc) nofun
  case reached =>
    intro i c hi
    rcases (lookup_cons_iff hn).1 hi with ⟨rfl, -⟩ | hi
    · exact hr
    · exact h.reached i c hi
  case lt =>
    intro i c hi
    rcases (lookup_cons_iff hn).1 hi with ⟨-, rfl⟩ | hi
    · exact lt_size_of_kind? hmade.kind
    · exact Nat.lt_of_lt_of_le (h.lt i c hi) (size_mono hmade.le)
  case kind =>
    intro i c kind' hi hsource hkind
    rcases (lookup_cons_iff hn).1 hi with ⟨rfl, rfl⟩ | hi
    · obtain rfl := Option.some.inj (hk.symm.trans hkind)
      exact hmade.kind
    · exact hmade.le _ _ (h.kind i c kind' hi hsource hkind)
  case fresh =>
    intro i c hi hij
    rcases (lookup_cons_iff hn).1 hi with ⟨rfl, rfl⟩ | hi
    · exact hjoint hij ▸ size_mono h.le
    · exact h.fresh i c hi hij
  case distinct =>
    -- The copy made now is behind those that were made before.
    intro i j c hi hj hij hjj
    rcases (lookup_cons_iff hn).1 hi with ⟨rfl, hc⟩ | hi' <;>
      rcases (lookup_cons_iff hn).1 hj with ⟨rfl, hc'⟩ | hj'
    · rfl
    · exact absurd (h.lt j c hj') (by rw [hc, hjoint hij]; exact Nat.lt_irrefl _)
    · exact absurd (h.lt i c hi') (by rw [hc', hjoint hjj]; exact Nat.lt_irrefl _)
    · exact h.distinct i j c hi' hj' hij hjj
  case new =>
    intro i hge hlt
    rcases hmade.new i hlt with hlt | rfl
    · obtain ⟨j, hj, hlookup⟩ := h.new i hge hlt
      exact ⟨j, hj, hmono hlookup⟩
    · exact ⟨id, hne, (lookup_cons_iff hn).2 (.inl ⟨rfl, rfl⟩)⟩
  case kept =>
    intro i
    rw [hmade.children]
    exact h.kept i
  case image =>
    intro i e he
    rw [hmade.children] at he
    rcases h.image i e he with he | ⟨j, hj, e', he', htarget, hq⟩
    · exact .inl he
    · exact .inr ⟨j, hmono hj, e', he', hmono htarget, hq⟩

/-- A link is copied. -/
theorem link {child : NodeId} (h : s.Grafted k g) (he : e ∈ s.scratch.children id)
    (hid : g.copies.lookup id = some copied) (hchild : g.copies.lookup e.target = some child) :
    s.Grafted k ⟨g.keeper.addChild copied child e.quality, g.copies⟩ := by
  have hlt := h.lt id copied hid
  constructor
  case le => exact h.le.trans le_addChild
  case unique => exact h.unique.addChild
  case source => exact h.source
  case nodup => exact h.nodup
  case reached => exact h.reached
  case lt => exact fun i c hi => (h.lt i c hi).trans_eq size_addChild.symm
  case kind => exact fun i c kind hi hne hk => kind?_addChild.trans (h.kind i c kind hi hne hk)
  case fresh => exact h.fresh
  case distinct => exact h.distinct
  case new => exact fun i hge hi => h.new i hge (hi.trans_eq size_addChild)
  case kept =>
    intro i
    obtain ⟨es, hes, hnodup, hnew⟩ := h.kept i
    by_cases hi : i = copied
    · subst hi
      rw [children_addChild hlt, if_pos rfl]
      -- Links that are renamed alike are one link, and it may have been there before the graft.
      by_cases hmem : (⟨child, e.quality⟩ : Edge) ∈ g.keeper.children i
      · rw [addLink_of_mem hmem]
        exact ⟨es, hes, hnodup, hnew⟩
      · rw [addLink_of_not_mem hmem, hes, List.append_assoc]
        rw [hes, List.mem_append, not_or] at hmem
        refine ⟨_, rfl, List.nodup_append.2 ⟨hnodup, List.nodup_singleton _, ?_⟩, ?_⟩
        · rintro e' he' _ hlast rfl
          exact hmem.2 (List.mem_singleton.1 hlast ▸ he')
        · intro e' he'
          rcases List.mem_append.1 he' with he' | he'
          · exact hnew e' he'
          · exact List.mem_singleton.1 he' ▸ hmem.1
    · rw [children_addChild_of_ne hi]
      exact ⟨es, hes, hnodup, hnew⟩
  case image =>
    intro i e' he'
    by_cases hi : i = copied
    · subst hi
      rw [children_addChild hlt, if_pos rfl, mem_addLink] at he'
      rcases he' with he' | rfl
      · exact h.image i e' he'
      · exact .inr ⟨id, hid, e, he, hchild, rfl⟩
    · rw [children_addChild_of_ne hi] at he'
      exact h.image i e' he'

/-- Steps keep the invariant. -/
theorem step (h : s.Grafted k g) (hs : s.Step g g') : s.Grafted k g' := by
  cases hs with
  | node hr hn hk => exact h.node hr hn hk
  | link he hid hchild => exact h.link he hid hchild

theorem run (h : s.Grafted k g) (hr : s.Run g g') : s.Grafted k g' := by
  induction hr with
  | refl => exact h
  | tail _ hs ih => exact ih.step hs

/-- Each of the nodes that have been copied is another node of the scratch. -/
theorem length_le (h : s.Grafted k g) (hlt : ∀ id, s.Reached id → id < s.scratch.size) :
    g.copies.length ≤ s.scratch.size := by
  have hsub : g.copies.map Prod.fst ⊆ List.range s.scratch.size := fun id hid => by
    obtain ⟨copied, hid⟩ := mem_keys_iff.1 hid
    exact List.mem_range.2 (hlt id (h.reached id copied hid))
  have hle := (List.subperm_of_subset h.nodup hsub).length_le
  rwa [List.length_map, List.length_range] at hle

end Grafted

end Scion

end Lineage
