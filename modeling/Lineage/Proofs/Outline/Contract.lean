import Lineage.Function.Evaluation
import Lineage.Proofs.Outline.Answer

/-!
# What answers do

An answer touches nothing but its root. Below it, the answer hangs the nodes that
it gives back, at once or by way of one new AND or OR node; each of them stands
for a part of an input of the function. It adds no other nodes, and no other
links. Whatever else the keeper holds is as it was, and nodes that it had may be
among those given. So the same question has the same answer the next time
(`exists_answered`).

All this holds of witnesses whose answers come from other witnesses, on keepers
of their own, and are grafted.
-/

namespace Lineage

/-! ### What answers attach -/

namespace Keeper

variable {k k' : Keeper} {subject : FunctionId} {id root : NodeId} {o : Outline} {e : Edge}
  {leaves : List NodeId}

/-- From `k` to `k'`, the nodes `leaves` are hung below `root`: one at once, or all of them below
    one new AND or OR node. No other nodes are new. -/
inductive Hung (k k' : Keeper) (root : NodeId) : List NodeId → Prop where
  | direct {id : NodeId} {quality : Quality} (hlink : ⟨id, quality⟩ ∈ k'.children root)
    (hnew : ∀ i < k'.size, k.size ≤ i → i = id) : Hung k k' root [id]
  | joined {middle : NodeId} {leaves : List NodeId} (hmiddle : k.size ≤ middle)
    (hkind : k'.kind? middle = some .and ∨ k'.kind? middle = some .or)
    (hroot : ⟨middle, .exact⟩ ∈ k'.children root)
    (hleaves : ∀ id ∈ leaves, ⟨id, .exact⟩ ∈ k'.children middle)
    (hnew : ∀ i < k'.size, k.size ≤ i → i = middle ∨ i ∈ leaves) : Hung k k' root leaves

theorem hung_attachTo (subject : FunctionId) (h : root < k.size) :
    Hung k (o.attachTo subject root k).1 root (o.attachTo subject root k).2 := by
  cases o with
  | link quality d =>
    refine .direct ((mem_children_attach h).2 (.inr ⟨List.mem_cons_self, Eq.refl quality⟩))
      fun i hi hge => ?_
    obtain ⟨kind, hk⟩ := exists_kind? hi
    rcases kind?_attach hk with hk | ⟨hmem, -⟩
    · exact absurd (lt_size_of_kind? hk) (Nat.not_lt.2 hge)
    · exact List.mem_singleton.1 hmem
  | junction j ds =>
    refine .joined (Nat.le_refl k.size) ?_ ?_ (fun id hid => ?_) fun i hi hge => ?_
    · rw [Outline.attachTo, kind?_attachBelow_size]
      cases j with
      | and => exact .inl rfl
      | or => exact .inr rfl
    · rw [Outline.attachTo, children_attachBelow_root h]
      exact mem_addLink.2 (.inr rfl)
    · exact (mem_children_attachBelow_size h).2 ⟨hid, rfl⟩
    · obtain ⟨kind, hk⟩ := exists_kind? hi
      rcases kind?_attachBelow hk with hk | ⟨hi, -⟩ | ⟨hmem, -⟩
      · exact absurd (lt_size_of_kind? hk) (Nat.not_lt.2 hge)
      · exact .inl hi
      · exact .inr hmem

/-- The root is linked once more at most. -/
theorem exists_link_attachTo (subject : FunctionId) (h : root < k.size) :
    ∃ e, (o.attachTo subject root k).1.children root = addLink (k.children root) e := by
  cases o with
  | link quality d => exact ⟨_, children_attachOne h⟩
  | junction j ds => exact ⟨_, children_attachBelow_root h⟩

/-- A new link leads to one of the nodes given, or to the new node that joins them. -/
theorem target_of_new_link (h : root < k.size) (he : e ∈ (o.attachTo subject root k).1.children id)
    (hne : e ∉ k.children id) : e.target ∈ (o.attachTo subject root k).2 ∨
      ∀ key, (o.attachTo subject root k).1.kind? e.target ≠ some (.object key) := by
  cases o with
  | link quality d =>
    by_cases hid : id = root
    · subst hid
      exact .inl (((mem_children_attach h).1 he).resolve_left hne).1
    · exact absurd (children_attach_of_ne hid ▸ he) hne
  | junction j ds =>
    by_cases hid : id = root
    · subst hid
      rw [Outline.attachTo, children_attachBelow_root h, mem_addLink] at he
      obtain rfl := he.resolve_left hne
      refine .inr fun key hk => j.kind_ne_object key ?_
      exact Option.some.inj (kind?_attachBelow_size.symm.trans hk)
    · by_cases hsize : id = k.size
      · subst hsize
        exact .inl ((mem_children_attachBelow_size h).1 he).1
      · exact absurd (children_attachBelow_of_ne hid hsize ▸ he) hne

/-- The nodes that an outline ends in are the same wherever it is attached, once they are kept. -/
theorem leaves_eq_of_le {root' : NodeId} (h : root < k.size) (h' : root' < k'.size)
    (hle : (o.attachTo subject root k).1 ≤ k') :
    (o.attachTo subject root' k').2 = (o.attachTo subject root k).2 := by
  have hnew := (drawn_attachTo (o := o) subject h').find?_leaves
  have hold := (drawn_attachTo (o := o) subject h).find?_leaves.imp fun _ _ =>
    find?_mono (hle.trans (drawn_attachTo (o := o) subject h').le)
  exact List.right_unique_forall₂' (fun _ _ _ h₁ h₂ => Option.some.inj (h₁.symm.trans h₂)) hnew hold

end Keeper

namespace Witness

variable {k k' : Keeper} {subject : FunctionId} {root : NodeId} {w : Witness} {leaves : List NodeId}

/-- What an answer of the witness `w` about a part for which `root` stands makes of the keeper
    `k`: the keeper `k'`, and the nodes `leaves` that the explanation ends in. -/
structure Answered (w : Witness) (subject : FunctionId) (root : NodeId) (k k' : Keeper)
    (leaves : List NodeId) : Prop where
  /-- The nodes given stand for parts of inputs of the subject. -/
  leaf : ∀ id ∈ leaves, ∃ d i, k'.kind? id = some (.object ⟨d, subject⟩) ∧ d.head = .input i ∧
    i < w.inArity
  hung : Keeper.Hung k k' root leaves
  /-- A new node that stands for a part is among those given. -/
  new_object : ∀ id key, k.size ≤ id → k'.kind? id = some (.object key) → id ∈ leaves
  /-- So is a node that stands for a part and is newly linked. -/
  linked_object : ∀ id key, ∀ e ∈ k'.children id, e ∉ k.children id →
    k'.kind? e.target = some (.object key) → e.target ∈ leaves
  /-- The nodes that were there are of the kinds they were of. -/
  kind : ∀ id < k.size, k'.kind? id = k.kind? id
  /-- They have the links they had, but for the root. -/
  frame : ∀ id < k.size, id ≠ root → k'.children id = k.children id
  /-- The root keeps its links, and has one more at most. -/
  root : ∃ e, k'.children root = addLink (k.children root) e
  /-- There still is one node for a part. -/
  unique : k.Unique → k'.Unique

theorem answered_answer (h : root < k.size) (w : Witness) (query : Query) (d : Designator)
    (subject : FunctionId) :
    w.Answered subject root k (answer query d subject root k w).1
      (answer query d subject root k w).2 := by
  rw [answer_eq h]
  have hdrawn := Keeper.drawn_attachTo (o := w.outline query d) subject h
  constructor
  case leaf =>
    intro id hid
    obtain ⟨d', hd', hf⟩ := hdrawn.mem_leaves hid
    obtain ⟨i, hi, hhead⟩ := head_of_mem_outline hd'
    exact ⟨d', i, Keeper.kind?_of_find? hf, hhead, hi⟩
  case hung => exact Keeper.hung_attachTo subject h
  case new_object =>
    intro id key hid hk
    rcases hdrawn.fresh id _ hk hid with ⟨hmem, -⟩ | ⟨-, hne⟩
    · exact hmem
    · exact absurd rfl (hne key)
  case linked_object =>
    intro id key e he hne hk
    exact (Keeper.target_of_new_link h he hne).resolve_right fun h => h key hk
  case kind => exact fun id hid => Keeper.kind?_of_lt hdrawn.le hid
  case frame => exact hdrawn.frame
  case root => exact Keeper.exists_link_attachTo subject h
  case unique => exact hdrawn.unique

/-- A witness answers every question, about every part and at every root, and answers it alike
    from then on. -/
theorem exists_answered (h : root < k.size) (w : Witness) (query : Query) (d : Designator)
    (subject : FunctionId) : ∃ k' leaves, tryAnswer query d subject root k w = .ok (k', leaves) ∧
      answer query d subject root k w = (k', leaves) ∧ w.Answered subject root k k' leaves ∧
      ∀ k'' ≥ k', ∀ root' < k''.size, (answer query d subject root' k'' w).2 = leaves := by
  refine ⟨(answer query d subject root k w).1, (answer query d subject root k w).2,
    tryAnswer_eq d root k w, rfl, answered_answer h w query d subject, fun k'' hle root' h' => ?_⟩
  rw [answer_eq h] at hle ⊢
  rw [answer_eq h']
  exact Keeper.leaves_eq_of_le h h' hle

/-- A part of the output of a function applied to each list of a list, and a part of its input
    that leads back to it. -/
def backlinked : Keeper :=
  ((Keeper.empty.keep ⟨Designator.compose [.output 0, .element 0], 7⟩).1.keep
    ⟨Designator.compose [.input 0, .element 0, .element 1], 7⟩).1.addChild 1 0 .exact

/-- The second element of the first list is the node that was there. -/
theorem answered_backlinked : 0 < backlinked.size ∧
    (Function.applyToAll (.quantifier .forAll)).evaluate
      [.list [.list [.bool true, .bool true]]] =
        .ok ⟨[.list [.bool true]], .applied [.quantified 2 []]⟩ ∧
    ∃ k', answer .causality (Designator.compose [.element 0]) 7 0 backlinked
        (.applied [.quantified 2 []]) = (k', [3, 1]) ∧
      Answered (.applied [.quantified 2 []]) 7 0 backlinked k' [3, 1] := by
  have hsize : 0 < backlinked.size := by decide +kernel
  obtain ⟨k', leaves, -, heq, h, -⟩ := exists_answered hsize (.applied [.quantified 2 []])
    .causality (Designator.compose [.element 0]) 7
  have hleaves : leaves = [3, 1] := by
    rw [← show (answer .causality (Designator.compose [.element 0]) 7 0 backlinked
      (.applied [.quantified 2 []])).2 = [3, 1] by decide +kernel, heq]
  subst hleaves
  exact ⟨hsize, rfl, k', heq, h⟩

end Witness

end Lineage
