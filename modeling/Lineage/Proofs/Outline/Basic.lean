import Lineage.Proofs.Keeper.Attach
import Mathlib.Logic.Relation

/-!
# Outlines

An outline says what an explanation attaches to its root, without saying where
the nodes are kept: one link to a part, or an exact link to an AND or OR node
that links exactly to several parts. Every explanation has one of these forms,
however many witnesses are asked in turn (`Lineage.Proofs.Outline.Answer`).

* `Outline.attachTo` draws an outline below a node of a keeper;
* `Drawn` says what this does to the keeper, in full: what is kept, what becomes
  of the nodes that were there, and what the root then shows.
-/

namespace Lineage

/-- How several parts explain an output. -/
inductive Junction where
  /-- All together. -/
  | and
  /-- Any one of them. -/
  | or
deriving Repr, DecidableEq

/-- The kind of the node that joins the parts. -/
def Junction.kind : Junction → NodeKind
  | and => .and
  | or => .or

/-- What is attached to the root of an explanation. -/
inductive Outline where
  /-- A link to a part. -/
  | link (quality : Quality) (d : Designator)
  /-- An exact link to a new node that links exactly to several parts. -/
  | junction (j : Junction) (ds : List Designator)
deriving Repr, DecidableEq

namespace Outline

/-- The parts that an outline ends in, in order. -/
def parts : Outline → List Designator
  | link _ d => [d]
  | junction _ ds => ds

/-- The outline with other names for its parts. -/
def rename (f : Designator → Designator) : Outline → Outline
  | link quality d => .link quality (f d)
  | junction j ds => .junction j (ds.map f)

@[simp]
theorem parts_rename (f : Designator → Designator) (o : Outline) :
    (o.rename f).parts = o.parts.map f := by
  cases o <;> rfl

/-- Attaches an outline to `root`, with nodes for parts of `subject`; gives the
    nodes that it ends in. -/
def attachTo (subject : FunctionId) (root : NodeId) (k : Keeper) : Outline → Keeper × List NodeId
  | link quality d => Keeper.attach subject root quality [d] k
  | junction j ds => k.attachBelow j.kind subject root ds

end Outline

theorem Junction.kind_ne_object (j : Junction) (key : ObjectKey) : j.kind ≠ .object key := by
  cases j <;> exact nofun

namespace Keeper

variable {k k' : Keeper} {subject : FunctionId} {root : NodeId} {o : Outline}

/-- Below `root`, the keeper holds what the outline says, and nothing else. -/
def Shows (k : Keeper) (subject : FunctionId) (root : NodeId) : Outline → Prop
  | .link quality d =>
    ∃ id, k.children root = [⟨id, quality⟩] ∧ k.kind? id = some (.object ⟨d, subject⟩)
  | .junction j ds =>
    ∃ id, k.children root = [⟨id, .exact⟩] ∧ k.kind? id = some j.kind ∧
      k.Showing subject id .exact ds

/-- What attaching an outline to `root` makes of a keeper, with the nodes
    `leaves` that are given. -/
structure Drawn (k k' : Keeper) (subject : FunctionId) (root : NodeId) (o : Outline)
    (leaves : List NodeId) : Prop where
  le : k ≤ k'
  unique : k.Unique → k'.Unique
  /-- The nodes given are those for the parts. -/
  find?_leaves : List.Forall₂ (fun d id => k'.find? ⟨d, subject⟩ = some id) o.parts leaves
  /-- The other nodes that were there have the links they had. -/
  frame : ∀ id < k.size, id ≠ root → k'.children id = k.children id
  /-- A new node stands for a part and has no links, or it joins the parts. -/
  fresh : ∀ id kind, k'.kind? id = some kind → k.size ≤ id →
    (id ∈ leaves ∧ k'.children id = [] ∧ ∃ d ∈ o.parts, kind = .object ⟨d, subject⟩) ∨
      k'.children root = addLink (k.children root) ⟨id, .exact⟩ ∧ ∀ key, kind ≠ .object key
  /-- A new link from the root leads to a part or to a new node. -/
  links : ∀ e ∈ k'.children root, e ∈ k.children root ∨ k.size ≤ e.target ∨
    ∃ d ∈ o.parts, k'.kind? e.target = some (.object ⟨d, subject⟩)
  shows : k.Unique → root < k.size → k.children root = [] → k'.Shows subject root o

/-- The root of an outline that is shown has one link. -/
theorem Shows.exists_children (h : k.Shows subject root o) : ∃ e, k.children root = [e] := by
  cases o with
  | link quality d =>
    obtain ⟨id, hc, -⟩ := h
    exact ⟨_, hc⟩
  | junction j ds =>
    obtain ⟨id, hc, -⟩ := h
    exact ⟨_, hc⟩

/-- A child that stands for no part joins the parts. -/
theorem Shows.eq_junction {id : NodeId} {kind : NodeKind} {quality : Quality}
    (hs : k.Shows subject root o) (hc : k.children root = [⟨id, quality⟩])
    (hk : k.kind? id = some kind) (hne : ∀ key, kind ≠ .object key) :
    ∃ j ds, o = .junction j ds ∧ kind = j.kind ∧ k.Showing subject id .exact ds := by
  cases o with
  | link quality d =>
    obtain ⟨child, hc', hchild⟩ := hs
    obtain ⟨rfl, -⟩ := Edge.mk.inj (List.singleton_inj.1 (hc.symm.trans hc'))
    exact absurd (Option.some.inj (hk.symm.trans hchild)) (hne _)
  | junction j ds =>
    obtain ⟨middle, hc', hmiddle, hs⟩ := hs
    obtain ⟨rfl, -⟩ := Edge.mk.inj (List.singleton_inj.1 (hc.symm.trans hc'))
    exact ⟨j, ds, rfl, Option.some.inj (hk.symm.trans hmiddle), hs⟩

namespace Drawn

variable {leaves : List NodeId} {id : NodeId} {kind : NodeKind}

/-- Each of the nodes given is found for a part. -/
theorem mem_leaves (h : Drawn k k' subject root o leaves) (hid : id ∈ leaves) :
    ∃ d ∈ o.parts, k'.find? ⟨d, subject⟩ = some id := by
  have hall := h.find?_leaves
  generalize o.parts = ds at hall ⊢
  clear h
  induction hall with
  | nil => exact absurd hid List.not_mem_nil
  | @cons d id' ds ids hf _ ih =>
    rcases List.mem_cons.1 hid with rfl | hid
    · exact ⟨d, List.mem_cons_self, hf⟩
    · obtain ⟨d', hd', hf'⟩ := ih hid
      exact ⟨d', List.mem_cons_of_mem _ hd', hf'⟩

/-- A link is old, or it leads from the root or to a part. -/
theorem link_cases (h : Drawn k k' subject root o leaves) (hs : k'.Shows subject root o)
    (hroot : k.children root = []) {e : Edge} (he : e ∈ k'.children id) :
    (id < k.size ∧ id ≠ root ∧ e ∈ k.children id) ∨ (id = root ∧ k.size ≤ e.target) ∨
      ∃ key, k'.kind? e.target = some (.object key) := by
  by_cases hid : id = root
  · subst hid
    rcases h.links e he with he | he | ⟨d, -, hk⟩
    · exact absurd (hroot ▸ he) List.not_mem_nil
    · exact .inr (.inl ⟨rfl, he⟩)
    · exact .inr (.inr ⟨_, hk⟩)
  · rcases Nat.lt_or_ge id k.size with hlt | hge
    · exact .inl ⟨hlt, hid, h.frame id hlt hid ▸ he⟩
    · -- A new node with a link joins the parts.
      obtain ⟨kind, hk⟩ := exists_kind? (lt_size_of_mem_children he)
      rcases h.fresh id kind hk hge with ⟨-, hc, -⟩ | ⟨hc, hne⟩
      · exact absurd (hc ▸ he) List.not_mem_nil
      · rw [hroot] at hc
        obtain ⟨j, ds, -, -, hs⟩ := hs.eq_junction hc hk hne
        obtain ⟨d, -, hd, -⟩ := hs.exists_part he
        exact .inr (.inr ⟨_, hd⟩)

/-- A new node is below the root. -/
theorem reachable (h : Drawn k k' subject root o leaves) (hs : k'.Shows subject root o)
    (hu : k'.Unique) (hk : k'.kind? id = some kind) (hid : k.size ≤ id) :
    Relation.ReflTransGen k'.Linked root id := by
  rcases h.fresh id kind hk hid with ⟨-, -, d, hd, rfl⟩ | ⟨hc, -⟩
  · cases o with
    | link quality d' =>
      obtain rfl := List.mem_singleton.1 hd
      obtain ⟨child, hc, hchild⟩ := hs
      obtain rfl := hu _ _ _ hk hchild
      exact .single ⟨_, hc ▸ List.mem_cons_self, rfl⟩
    | junction j ds =>
      obtain ⟨middle, hc, -, hs⟩ := hs
      obtain ⟨child, hchild, he⟩ := hs.exists_link hd
      obtain rfl := hu _ _ _ hk hchild
      exact .tail (.single ⟨_, hc ▸ List.mem_cons_self, rfl⟩) ⟨_, he, rfl⟩
  · exact .single ⟨⟨id, .exact⟩, hc ▸ mem_addLink.2 (.inr rfl), rfl⟩

end Drawn

theorem drawn_link {quality : Quality} {d : Designator} (h : root < k.size) :
    Drawn k (attach subject root quality [d] k).1 subject root (.link quality d)
      (attach subject root quality [d] k).2 where
  le := le_attach
  unique := Unique.attach
  find?_leaves := find?_attach
  frame _ _ hid := children_attach_of_ne hid
  fresh id kind hk hid := by
    rcases kind?_attach hk with hk' | ⟨hmem, d', hd', rfl⟩
    · exact absurd (lt_size_of_kind? hk') (Nat.not_lt.2 hid)
    · have hne : id ≠ root := fun he => Nat.not_le.2 h (he ▸ hid)
      refine .inl ⟨hmem, ?_, d', hd', rfl⟩
      rw [children_attach_of_ne hne, children_of_size_le hid]
  links e he := by
    have he' : e ∈ addLink (k.children root) ⟨(k.keep ⟨d, subject⟩).2, quality⟩ :=
      children_attachOne h ▸ he
    rcases mem_addLink.1 he' with he | rfl
    · exact .inl he
    · exact .inr (.inr ⟨d, List.mem_cons_self, kind?_of_find? find?_attachOne⟩)
  shows hu _ hc := by
    refine ⟨(k.keep ⟨d, subject⟩).2, ?_, kind?_of_find? find?_attachOne⟩
    exact (children_attachOne h).trans (by rw [hc]; rfl)

theorem drawn_junction {j : Junction} {ds : List Designator} (h : root < k.size) :
    Drawn k (k.attachBelow j.kind subject root ds).1 subject root (.junction j ds)
      (k.attachBelow j.kind subject root ds).2 where
  le := le_attachBelow
  unique hu := hu.attachBelow j.kind_ne_object
  find?_leaves := find?_attach.imp fun _ _ => find?_mono le_addChild
  frame _ hid hne := children_attachBelow_of_ne hne (Nat.ne_of_lt hid)
  fresh id kind hk hid := by
    have hne : id ≠ root := fun he => Nat.not_le.2 h (he ▸ hid)
    rcases kind?_attachBelow hk with hk' | ⟨rfl, rfl⟩ | ⟨hmem, d, hd, rfl⟩
    · exact absurd (lt_size_of_kind? hk') (Nat.not_lt.2 hid)
    · exact .inr ⟨children_attachBelow_root h, j.kind_ne_object⟩
    · -- The node that joins the parts stands for none of them.
      have hm : id ≠ k.size := fun hm => by
        rw [hm, kind?_attachBelow_size] at hk
        exact j.kind_ne_object _ (Option.some.inj hk)
      refine .inl ⟨hmem, ?_, d, hd, rfl⟩
      rw [children_attachBelow_of_ne hne hm, children_of_size_le hid]
  links e he := by
    rw [children_attachBelow_root h] at he
    rcases mem_addLink.1 he with he | rfl
    · exact .inl he
    · exact .inr (.inl (Nat.le_refl _))
  shows hu _ hroot := by
    refine ⟨k.size, ?_, kind?_attachBelow_size, showing_attachBelow hu j.kind_ne_object h⟩
    rw [children_attachBelow_root h, hroot]
    rfl

theorem drawn_attachTo (subject : FunctionId) (h : root < k.size) :
    Drawn k (o.attachTo subject root k).1 subject root o (o.attachTo subject root k).2 := by
  cases o with
  | link quality d => exact drawn_link h
  | junction j ds => exact drawn_junction h

end Keeper

end Lineage
