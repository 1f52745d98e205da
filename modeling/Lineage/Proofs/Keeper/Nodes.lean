import Lineage.Keeper.Basic
import Mathlib.Order.Basic

/-!
# Nodes of keepers

What a keeper holds is told by the kinds of its nodes and by their links, and
each operation is told by what it does to these:

* a new node has no links, and leaves the others as they are (`kind?_push`,
  `children_push`);
* a new link changes no kind, and no links but those of the node it starts from
  (`kind?_addChild`, `children_addChild`);
* a part that is kept is found from then on (`find?_keep`), by whatever nodes
  the keeper grows (`find?_mono`).

Keepers are ordered by growth: `k ≤ k'` when `k'` has the nodes of `k`, each of
its kind.
-/

namespace Lineage

/-- The links `es`, and `e` after them unless it is among them. -/
def addLink (es : List Edge) (e : Edge) : List Edge := if e ∈ es then es else es ++ [e]

theorem addLink_of_mem {es : List Edge} {e : Edge} (h : e ∈ es) : addLink es e = es := by
  rw [addLink, if_pos h]

theorem addLink_of_not_mem {es : List Edge} {e : Edge} (h : e ∉ es) :
    addLink es e = es ++ [e] := by
  rw [addLink, if_neg h]

theorem mem_addLink {es : List Edge} {e e' : Edge} : e' ∈ addLink es e ↔ e' ∈ es ∨ e' = e := by
  by_cases h : e ∈ es
  · rw [addLink_of_mem h]
    exact ⟨.inl, fun h' => h'.elim id fun he => he ▸ h⟩
  · rw [addLink_of_not_mem h, List.mem_append, List.mem_singleton]

theorem prefix_addLink {es : List Edge} {e : Edge} : es <+: addLink es e := by
  by_cases h : e ∈ es
  · exact ⟨[], by rw [addLink_of_mem h, List.append_nil]⟩
  · exact ⟨[e], (addLink_of_not_mem h).symm⟩

theorem nodup_addLink {es : List Edge} {e : Edge} (hes : es.Nodup) : (addLink es e).Nodup := by
  by_cases h : e ∈ es
  · rwa [addLink_of_mem h]
  · rw [addLink_of_not_mem h]
    refine List.nodup_append.2 ⟨hes, List.pairwise_singleton _ e, fun e' he' _ he heq => ?_⟩
    exact h (List.mem_singleton.1 he ▸ heq ▸ he')

/-- A node stands for a part, or it is an AND or OR node. -/
theorem NodeKind.object_or (kind : NodeKind) :
    (∃ key, kind = .object key) ∨ ∀ key, kind ≠ .object key := by
  cases kind with
  | object key => exact .inl ⟨key, rfl⟩
  | and => exact .inr fun _ => nofun
  | or => exact .inr fun _ => nofun

namespace Keeper

/-- The kind of a node, if there is such a node. -/
def kind? (k : Keeper) (id : NodeId) : Option NodeKind := (k.node? id).map Node.kind

/-- The links from a node; an unknown node has none. -/
def children (k : Keeper) (id : NodeId) : List Edge := ((k.node? id).map Node.children).getD []

/-- A link leads from one node to another. -/
def Linked (k : Keeper) (i j : NodeId) : Prop := ∃ e ∈ k.children i, e.target = j

variable {k k' : Keeper} {id parent child : NodeId} {kind : NodeKind} {key : ObjectKey}
  {quality : Quality}

theorem kind?_eq_none_iff : k.kind? id = none ↔ k.size ≤ id := by
  simp [kind?, node?, size]

theorem lt_size_of_kind? (h : k.kind? id = some kind) : id < k.size := by
  by_contra hlt
  rw [kind?_eq_none_iff.2 (Nat.not_lt.1 hlt)] at h
  exact absurd h nofun

theorem exists_kind? (h : id < k.size) : ∃ kind, k.kind? id = some kind :=
  Option.ne_none_iff_exists'.1 fun hn => absurd h (Nat.not_lt.2 (kind?_eq_none_iff.1 hn))

theorem children_of_size_le (h : k.size ≤ id) : k.children id = [] := by
  have hn : k.node? id = none := by simpa [node?, size] using h
  rw [children, hn]
  rfl

theorem lt_size_of_mem_children {e : Edge} (h : e ∈ k.children id) : id < k.size := by
  by_contra hlt
  rw [children_of_size_le (Nat.not_lt.1 hlt)] at h
  exact absurd h List.not_mem_nil

theorem node?_eq_some (h : k.kind? id = some kind) : k.node? id = some ⟨kind, k.children id⟩ := by
  obtain ⟨n, hn, rfl⟩ := Option.map_eq_some_iff.1 h
  rw [children, hn]
  rfl

/-- A node is registered as what it says of itself. -/
theorem object?_eq : k.object? id = (k.node? id).bind Node.object? := k.kept.key?_eq

theorem object?_toTree (root : NodeId) : (k.toTree root).object? id = k.object? id :=
  object?_eq.symm

theorem object?_eq_some_iff : k.object? id = some key ↔ k.kind? id = some (.object key) := by
  rw [object?_eq]
  cases hn : k.node? id with
  | none => simp [kind?, hn]
  | some n =>
    obtain ⟨kind, es⟩ := n
    cases kind <;> simp [kind?, hn, Node.object?]

/-! ### Growth -/

instance : Preorder Keeper where
  le k k' := ∀ id kind, k.kind? id = some kind → k'.kind? id = some kind
  le_refl _ _ _ h := h
  le_trans _ _ _ h h' id kind hk := h' id kind (h id kind hk)

theorem kind?_mono (h : k ≤ k') (hk : k.kind? id = some kind) : k'.kind? id = some kind :=
  h id kind hk

theorem size_mono (h : k ≤ k') : k.size ≤ k'.size := by
  by_contra hlt
  obtain ⟨kind, hk⟩ := exists_kind? (Nat.not_le.1 hlt)
  exact absurd (lt_size_of_kind? (h _ _ hk)) (Nat.lt_irrefl _)

/-- A node that was there has the kind it had. -/
theorem kind?_of_lt (h : k ≤ k') (hid : id < k.size) : k'.kind? id = k.kind? id := by
  obtain ⟨kind, hk⟩ := exists_kind? hid
  rw [hk, h _ _ hk]

/-! ### New nodes and links -/

@[simp]
theorem size_push : (k.push kind).1.size = k.size + 1 := Array.size_push _

@[simp]
theorem snd_push : (k.push kind).2 = k.size := rfl

theorem node?_push :
    (k.push kind).1.node? id = if id = k.size then some ⟨kind, []⟩ else k.node? id :=
  Array.getElem?_push

theorem kind?_push : (k.push kind).1.kind? id = if id = k.size then some kind else k.kind? id := by
  rw [kind?, node?_push]
  split <;> rfl

@[simp]
theorem children_push : (k.push kind).1.children id = k.children id := by
  rw [children, node?_push]
  split
  · next h => rw [children_of_size_le (Nat.le_of_eq h.symm)]; rfl
  · rfl

theorem le_push : k ≤ (k.push kind).1 := fun id _ hk => by
  rw [kind?_push, if_neg (Nat.ne_of_lt (lt_size_of_kind? hk)), hk]

theorem node?_addChild : (k.addChild parent child quality).node? id =
    if parent = id then (k.node? id).map fun n =>
      { n with children := addLink n.children ⟨child, quality⟩ }
    else k.node? id := by
  have hlink : (fun n : Node => { n with children := addLink n.children ⟨child, quality⟩ }) =
      fun n => if ⟨child, quality⟩ ∈ n.children then n
        else { n with children := n.children ++ [⟨child, quality⟩] } := by
    funext n
    simp only [addLink]
    split <;> rfl
  rw [hlink]
  exact Array.getElem?_modify

@[simp]
theorem size_addChild : (k.addChild parent child quality).size = k.size := Array.size_modify

@[simp]
theorem kind?_addChild : (k.addChild parent child quality).kind? id = k.kind? id := by
  rw [kind?, node?_addChild]
  split
  · rw [Option.map_map]; rfl
  · rfl

theorem children_addChild (h : parent < k.size) : (k.addChild parent child quality).children id =
    if id = parent then addLink (k.children id) ⟨child, quality⟩ else k.children id := by
  obtain ⟨kind, hk⟩ := exists_kind? h
  rw [children, node?_addChild]
  by_cases hid : parent = id
  · subst hid
    rw [if_pos rfl, if_pos rfl, node?_eq_some hk]
    rfl
  · rw [if_neg hid, if_neg (Ne.symm hid), children]

theorem children_addChild_of_ne (h : id ≠ parent) :
    (k.addChild parent child quality).children id = k.children id := by
  rw [children, node?_addChild, if_neg (Ne.symm h), children]

theorem le_addChild : k ≤ k.addChild parent child quality := fun _ _ hk => by
  rwa [kind?_addChild]

/-- A link that is there is not added again. -/
theorem addChild_of_mem (h : ⟨child, quality⟩ ∈ k.children parent) :
    k.addChild parent child quality = k := by
  have hn : ∃ n, k.node? parent = some n := by
    cases hn : k.node? parent with
    | none => rw [children, hn] at h; exact absurd h List.not_mem_nil
    | some n => exact ⟨n, rfl⟩
  obtain ⟨n, hn⟩ := hn
  rw [children, hn] at h
  refine eq_of_nodes (Array.ext_getElem? fun i => node?_addChild.trans ?_)
  split
  · next hi =>
    subst hi
    rw [hn, Option.map_some, addLink_of_mem (show _ ∈ n.children from h)]
    exact hn.symm
  · rfl

/-! ### Kept parts -/

theorem find?_eq_some_iff : k.find? key = some id ↔
    k.kind? id = some (.object key) ∧ ∀ j < id, k.kind? j ≠ some (.object key) := by
  rw [find?, Register.id?_eq, Array.findIdx?_eq_some_iff_getElem]
  constructor
  · rintro ⟨hid, hkey, hbefore⟩
    refine ⟨by simpa [kind?, node?, Array.getElem?_eq_getElem hid] using hkey, fun j hj hk => ?_⟩
    refine hbefore j hj ?_
    simpa [kind?, node?, Array.getElem?_eq_getElem (Nat.lt_trans hj hid)] using hk
  · rintro ⟨hkey, hbefore⟩
    have hid : id < k.nodes.size := lt_size_of_kind? hkey
    refine ⟨hid, by simpa [kind?, node?, Array.getElem?_eq_getElem hid] using hkey,
      fun j hj hk => hbefore j hj ?_⟩
    simpa [kind?, node?, Array.getElem?_eq_getElem (Nat.lt_trans hj hid)] using hk

theorem kind?_of_find? (h : k.find? key = some id) : k.kind? id = some (.object key) :=
  (find?_eq_some_iff.1 h).1

theorem find?_eq_none_iff : k.find? key = none ↔ ∀ id, k.kind? id ≠ some (.object key) := by
  rw [find?, Register.id?_eq, Array.findIdx?_eq_none_iff]
  constructor
  · intro h id hk
    have hn := node?_eq_some hk
    have hmem : (⟨.object key, k.children id⟩ : Node) ∈ k.nodes := Array.mem_of_getElem? hn
    simpa using h _ hmem
  · intro h n hn
    obtain ⟨i, hi, rfl⟩ := Array.getElem_of_mem hn
    have hk := h i
    simpa [kind?, node?, Array.getElem?_eq_getElem hi] using hk

/-- What is found goes on to be found. -/
theorem find?_mono (h : k ≤ k') (hf : k.find? key = some id) : k'.find? key = some id := by
  obtain ⟨hk, hbefore⟩ := find?_eq_some_iff.1 hf
  refine find?_eq_some_iff.2 ⟨h _ _ hk, fun j hj => ?_⟩
  rw [kind?_of_lt h (Nat.lt_trans hj (lt_size_of_kind? hk))]
  exact hbefore j hj

theorem keep_of_find? (h : k.find? key = some id) : k.keep key = (k, id) := by rw [keep, h]

theorem keep_of_find?_eq_none (h : k.find? key = none) : k.keep key = k.push (.object key) := by
  rw [keep, h]

theorem le_keep : k ≤ (k.keep key).1 := by
  cases h : k.find? key with
  | some id => rw [keep_of_find? h]
  | none => rw [keep_of_find?_eq_none h]; exact le_push

@[simp]
theorem children_keep : (k.keep key).1.children id = k.children id := by
  cases h : k.find? key with
  | some id => rw [keep_of_find? h]
  | none => rw [keep_of_find?_eq_none h, children_push]

theorem find?_keep : (k.keep key).1.find? key = some (k.keep key).2 := by
  cases h : k.find? key with
  | some id => rw [keep_of_find? h, h]
  | none =>
    rw [keep_of_find?_eq_none h, snd_push]
    refine find?_eq_some_iff.2 ⟨by rw [kind?_push, if_pos rfl], fun j hj => ?_⟩
    rw [kind?_push, if_neg (Nat.ne_of_lt hj)]
    exact find?_eq_none_iff.1 h j

/-- The nodes of a keeper that keeps a part are those it had, and the one for the
    part. -/
theorem kind?_keep (h : (k.keep key).1.kind? id = some kind) :
    k.kind? id = some kind ∨ id = (k.keep key).2 ∧ kind = .object key := by
  cases hf : k.find? key with
  | some _ => rw [keep_of_find? hf] at h; exact .inl h
  | none =>
    rw [keep_of_find?_eq_none hf] at h ⊢
    rw [kind?_push] at h
    split at h
    · next hid => exact .inr ⟨hid, (Option.some.inj h).symm⟩
    · exact .inl h

theorem keep_empty : empty.keep key = empty.push (.object key) :=
  keep_of_find?_eq_none (find?_eq_none_iff.2 fun _ => nofun)

/-- A keeper that begins with a part has one node, which stands for the part. -/
theorem size_keep_empty : (empty.keep key).1.size = 1 := by
  rw [keep_empty, size_push]
  rfl

theorem snd_keep_empty : (empty.keep key).2 = 0 := by
  rw [keep_empty]
  rfl

theorem kind?_keep_empty : (empty.keep key).1.kind? 0 = some (.object key) := by
  rw [keep_empty]
  rfl

/-! ### One node for a part -/

/-- No two nodes stand for the same part. -/
def Unique (k : Keeper) : Prop :=
  ∀ i j key, k.kind? i = some (.object key) → k.kind? j = some (.object key) → i = j

theorem Unique.find? (hu : k.Unique) (h : k.kind? id = some (.object key)) :
    k.find? key = some id :=
  find?_eq_some_iff.2 ⟨h, fun j hj hk => absurd (hu j id key hk h) (Nat.ne_of_lt hj)⟩

theorem unique_empty : empty.Unique := fun _ _ _ h => absurd h nofun

theorem Unique.keep (hu : k.Unique) : (k.keep key).1.Unique := fun i j key' hi hj => by
  have hf := @find?_keep k key
  rcases kind?_keep hi with hi' | ⟨rfl, hkey⟩ <;> rcases kind?_keep hj with hj' | ⟨rfl, hkey'⟩
  · exact hu i j key' hi' hj'
  · obtain rfl := NodeKind.object.inj hkey'
    exact Option.some.inj ((find?_mono le_keep (hu.find? hi')).symm.trans hf)
  · obtain rfl := NodeKind.object.inj hkey
    exact Option.some.inj (hf.symm.trans (find?_mono le_keep (hu.find? hj')))
  · rfl

theorem Unique.push (hu : k.Unique) (h : ∀ key, kind ≠ .object key) : (k.push kind).1.Unique :=
  fun i j key hi hj => by
    rw [kind?_push] at hi hj
    split at hi
    · exact absurd (Option.some.inj hi) (h key)
    · split at hj
      · exact absurd (Option.some.inj hj) (h key)
      · exact hu i j key hi hj

theorem Unique.addChild (hu : k.Unique) : (k.addChild parent child quality).Unique :=
  fun i j key hi hj => hu i j key (by rwa [kind?_addChild] at hi) (by rwa [kind?_addChild] at hj)

end Keeper

end Lineage
