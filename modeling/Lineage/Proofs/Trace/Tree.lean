import Lineage.Proofs.Outline.Copy
import Lineage.Proofs.Trace.Closure

/-!
# Traced trees

The tree of a trace is the closure of the rule of explanation, by whatever
branches its nodes were reached and however often: below each node it holds what
explains the part that the node stands for, and nothing else (`isClosure`).

A bound on the depth leaves nodes without links, but changes nothing below
those that have links. Without a bound, only what nothing explains is left.
-/

namespace Lineage

namespace Tree

/-- The nodes of a tree. -/
def keeper (t : Tree) : Keeper := ⟨t.nodes⟩

/-- The kind of a node, if there is such a node. -/
def kind? (t : Tree) (id : NodeId) : Option NodeKind := t.keeper.kind? id

/-- A link leads from one node to another. -/
def Linked (t : Tree) (i j : NodeId) : Prop := ∃ e ∈ t.children i, e.target = j

end Tree

theorem Keeper.keeper_toTree (k : Keeper) (root : NodeId) : (k.toTree root).keeper = k :=
  eq_of_nodes rfl

variable {w : Wiring} {query : Query} {tracer : Tracer} {key : ObjectKey} {t : Tree}

/-- The tree is what the rule makes of the part `key`. -/
structure IsClosure (tracer : Tracer) (w : Wiring) (query : Query) (key : ObjectKey) (t : Tree) :
    Prop where
  root : t.kind? t.root = some (.object key)
  /-- No two nodes stand for the same part. -/
  unique : ∀ i j key, t.kind? i = some (.object key) → t.kind? j = some (.object key) → i = j
  /-- Links lead to nodes. -/
  target : ∀ id, ∀ e ∈ t.children id, e.target < t.size
  /-- No link is there twice. -/
  nodup : ∀ id, (t.children id).Nodup
  /-- Below an output is a copy of what the witness attaches to a root that
      stands alone. -/
  output : ∀ id key n, t.kind? id = some (.object key) → key.designator.head = .output n →
    t.children id ≠ [] → ∃ witness, w.witness key.subject = some witness ∧
      ∃ φ, Keeper.IsCopy
        (witness.answer query key.designator.rest key.subject 0 (Keeper.empty.keep key).1).1
        (witness.answer query key.designator.rest key.subject 0 (Keeper.empty.keep key).1).2
        t.keeper id φ
  /-- Below an input is the output that feeds it. -/
  input : ∀ id key n, t.kind? id = some (.object key) → key.designator.head = .input n →
    t.children id ≠ [] → ∃ output child, w.feeder ⟨key.subject, n⟩ = some output ∧
      t.children id = [⟨child, .exact⟩] ∧ t.kind? child = some (.object
        ⟨Designator.nest [.output output.number] key.designator.rest, output.function⟩)
  /-- Nothing is below other parts. -/
  other : ∀ id key, t.kind? id = some (.object key) → (∀ n, key.designator.head ≠ .output n) →
    (∀ n, key.designator.head ≠ .input n) → t.children id = []
  /-- Without a bound on the depth, nothing is below an output only for want of a
      witness. -/
  output_bare : tracer.maxDepth = none → ∀ id key n, t.kind? id = some (.object key) →
    key.designator.head = .output n → t.children id = [] → w.witness key.subject = none
  /-- Without a bound on the depth, nothing is below an input only if nothing
      feeds it. -/
  input_bare : tracer.maxDepth = none → ∀ id key n, t.kind? id = some (.object key) →
    key.designator.head = .input n → t.children id = [] → w.feeder ⟨key.subject, n⟩ = none
  /-- AND nodes alone may join nothing. -/
  or_children : ∀ id, t.kind? id = some .or → t.children id ≠ []
  /-- One link leads to an AND or OR node. -/
  joined : ∀ id kind, t.kind? id = some kind → (∀ key, kind ≠ .object key) →
    ∃ parent, t.children parent = [⟨id, .exact⟩] ∧
      ∀ other, ∀ e ∈ t.children other, e.target = id → other = parent
  /-- Every node is below the root. -/
  reachable : ∀ id < t.size, Relation.ReflTransGen t.Linked t.root id

namespace Tracer

variable {fuel : Nat} {d : Designator} {root : FunctionId}

theorem tree?_eq : tree? tracer fuel w query d root =
    (expand tracer w query fuel 0 0 ⟨(Keeper.empty.keep ⟨d, root⟩).1, []⟩).map
      fun s => s.keeper.toTree 0 := by
  have h : Keeper.empty.keep ⟨d, root⟩ = ((Keeper.empty.keep ⟨d, root⟩).1, 0) :=
    Prod.ext rfl Keeper.snd_keep_empty
  rw [tree?, h]
  dsimp only
  cases expand tracer w query fuel 0 0 ⟨(Keeper.empty.keep ⟨d, root⟩).1, []⟩ <;> rfl

/-- A trace that ends is a run from the part alone. -/
theorem exists_run (h : tree? tracer fuel w query d root = some t) :
    ∃ last, Run w query ⟨(Keeper.empty.keep ⟨d, root⟩).1, []⟩ last ∧ t = last.keeper.toTree 0 ∧
      (tracer.maxDepth = none → ∀ id, ¬last.Waits id) := by
  rw [tree?_eq] at h
  obtain ⟨last, hlast, rfl⟩ := Option.map_eq_some_iff.1 h
  have hroot : Tracing.IsObject ⟨(Keeper.empty.keep ⟨d, root⟩).1, []⟩ 0 :=
    ⟨_, Keeper.kind?_keep_empty⟩
  refine ⟨last, expand_run hroot hlast, rfl, fun hdepth id hid => ?_⟩
  obtain ⟨⟨⟨key, hk⟩, -⟩, hne⟩ := expand_waits hdepth hroot hlast hid
  have hlt := Keeper.lt_size_of_kind? hk
  rw [Keeper.size_keep_empty] at hlt
  exact hne (Nat.lt_one_iff.1 hlt)

namespace Grown

variable {s : Tracing} {id : NodeId} {key' : ObjectKey}

/-- A node with links shows what the rule says. -/
theorem obeys_of_children (h : Grown w query key s)
    (hk : s.keeper.kind? id = some (.object key')) (hc : s.keeper.children id ≠ []) :
    s.keeper.Obeys id (w.rule query key') := by
  obtain ⟨e, he⟩ := List.exists_mem_of_ne_nil _ hc
  exact h.obeys id key' hk (h.mem_expanded hk he)

/-- No two links lead from a node to the same child. -/
theorem nodup_targets (h : Grown w query key s) :
    ((s.keeper.children id).map Edge.target).Nodup := by
  cases hc : s.keeper.children id with
  | nil => exact List.nodup_nil
  | cons e es =>
    have he : e ∈ s.keeper.children id := hc ▸ List.mem_cons_self
    obtain ⟨kind, hk⟩ := Keeper.exists_kind? (Keeper.lt_size_of_mem_children he)
    rw [← hc]
    rcases kind.object_or with ⟨key', rfl⟩ | hne
    · obtain ⟨subject, o, -, hs⟩ := h.exists_shows hk he
      obtain ⟨e, hc⟩ := hs.exists_children
      exact hc ▸ List.nodup_singleton e.target
    · obtain ⟨_, _, _, _, _, -, -, -, -, hs⟩ := h.exists_junction hk hne
      -- The links differ, but not in their quality.
      refine hs.nodup.map_on fun e he e' he' htarget => ?_
      obtain ⟨-, -, -, hq⟩ := hs.exists_part he
      obtain ⟨-, -, -, hq'⟩ := hs.exists_part he'
      exact congrArg₂ Edge.mk htarget (hq.trans hq'.symm)

theorem nodup_children (h : Grown w query key s) : (s.keeper.children id).Nodup :=
  h.nodup_targets.of_map Edge.target

/-- An output with links is explained by its witness. -/
theorem exists_isCopy (h : Grown w query key s) {n : Nat}
    (hk : s.keeper.kind? id = some (.object key')) (hn : key'.designator.head = .output n)
    (hc : s.keeper.children id ≠ []) : ∃ witness, w.witness key'.subject = some witness ∧
      ∃ φ, Keeper.IsCopy
        (witness.answer query key'.designator.rest key'.subject 0 (Keeper.empty.keep key').1).1
        (witness.answer query key'.designator.rest key'.subject 0 (Keeper.empty.keep key').1).2
        s.keeper id φ := by
  have ho := h.obeys_of_children hk hc
  rw [rule_of_output hn] at ho
  cases hw : w.witness key'.subject with
  | none =>
    rw [hw] at ho
    exact absurd ho hc
  | some witness =>
    rw [hw] at ho
    refine ⟨witness, rfl, ?_⟩
    rw [Witness.answer_eq (Keeper.size_keep_empty ▸ Nat.one_pos)]
    exact Keeper.exists_isCopy (fun d hd => Witness.ne_output_of_mem_outline hn hd) h.unique hk ho

/-- An input with links has one, to the output that feeds it. -/
theorem exists_child (h : Grown w query key s) {n : Nat}
    (hk : s.keeper.kind? id = some (.object key')) (hn : key'.designator.head = .input n)
    (hc : s.keeper.children id ≠ []) :
    ∃ output child, w.feeder ⟨key'.subject, n⟩ = some output ∧
      s.keeper.children id = [⟨child, .exact⟩] ∧ s.keeper.kind? child = some (.object
        ⟨Designator.nest [.output output.number] key'.designator.rest, output.function⟩) := by
  have ho := h.obeys_of_children hk hc
  rw [rule_of_input hn] at ho
  cases hf : w.feeder ⟨key'.subject, n⟩ with
  | none =>
    rw [hf] at ho
    exact absurd ho hc
  | some output =>
    rw [hf] at ho
    obtain ⟨child, hchild, hkind⟩ := ho
    exact ⟨output, child, rfl, hchild, hkind⟩

/-- Parts that are no pins have no links. -/
theorem children_of_other (h : Grown w query key s)
    (hk : s.keeper.kind? id = some (.object key')) (ho : ∀ n, key'.designator.head ≠ .output n)
    (hi : ∀ n, key'.designator.head ≠ .input n) : s.keeper.children id = [] := by
  by_contra hc
  have hobeys := h.obeys_of_children hk hc
  rw [rule_of_other ho hi] at hobeys
  exact hc hobeys

/-- Nothing explains a node without links that has been expanded. -/
theorem rule_eq_none (h : Grown w query key s) (hid : ¬s.Waits id)
    (hk : s.keeper.kind? id = some (.object key')) (hc : s.keeper.children id = []) :
    w.rule query key' = none := by
  have hmem : id ∈ s.expanded := Decidable.by_contra fun hn => hid ⟨⟨key', hk⟩, hn⟩
  have ho := h.obeys id key' hk hmem
  cases hr : w.rule query key' with
  | none => rfl
  | some r =>
    rw [hr] at ho
    obtain ⟨e, he⟩ := Keeper.Shows.exists_children ho
    exact absurd (hc.symm.trans he) nofun

/-- An OR node has links. -/
theorem children_or_ne_nil (h : Grown w query key s) (hk : s.keeper.kind? id = some .or) :
    s.keeper.children id ≠ [] := fun hc => by
  obtain ⟨_, _, _, j, ds, -, -, hr, hj, hs⟩ := h.exists_junction hk fun _ => nofun
  cases j with
  | and => exact absurd hj nofun
  | or =>
    cases ds with
    | nil => exact rule_ne_or_nil hr
    | cons d ds =>
      obtain ⟨child, -, he⟩ := hs.exists_link List.mem_cons_self
      exact absurd (hc ▸ he) List.not_mem_nil

end Grown

/-- The tree of a trace is the closure of the rule. -/
theorem tree_isClosure (h : tree? tracer fuel w query d root = some t) :
    IsClosure tracer w query ⟨d, root⟩ t := by
  obtain ⟨last, hrun, rfl, hwaits⟩ := exists_run h
  have hg : Grown w query ⟨d, root⟩ last := grown_start.run hrun
  constructor
  case root => exact hg.root
  case unique => exact hg.unique
  case target => exact fun id e he => hg.target_lt he
  case nodup => exact fun id => hg.nodup_children
  case output =>
    intro id key n hk hn hc
    rw [Keeper.keeper_toTree]
    exact hg.exists_isCopy hk hn hc
  case input => exact fun id key n hk hn hc => hg.exists_child hk hn hc
  case other => exact fun id key hk ho hi => hg.children_of_other hk ho hi
  case output_bare =>
    intro hdepth id key n hk hn hc
    have hr := hg.rule_eq_none (hwaits hdepth id) hk hc
    rw [rule_of_output hn] at hr
    exact Option.map_eq_none_iff.1 hr
  case input_bare =>
    intro hdepth id key n hk hn hc
    have hr := hg.rule_eq_none (hwaits hdepth id) hk hc
    rw [rule_of_input hn] at hr
    exact Option.map_eq_none_iff.1 hr
  case or_children => exact fun id hk => hg.children_or_ne_nil hk
  case joined =>
    intro id kind hk hne
    obtain ⟨parent, hj⟩ := hg.joined id kind hk hne
    exact ⟨parent, hj.children, hj.eq_parent⟩
  case reachable =>
    intro id hid
    obtain ⟨kind, hk⟩ := Keeper.exists_kind? hid
    exact hg.linked id kind hk

/-- Two functions that feed each other: the first knows nothing of its inputs, the
    second copies the elements of a list. -/
def ring : Wiring where
  feeder input := if input.number = 0 then some ⟨1 - input.function, 0⟩ else none
  witness id := if id = 0 then some (.linkAll 2) else some (.applied [.forked])

theorem isClosure_ring : ∃ t,
    tree? {} 12 ring .provenance (Designator.compose [.output 0, .element 0]) 1 = some t ∧
      IsClosure {} ring .provenance ⟨Designator.compose [.output 0, .element 0], 1⟩ t := by
  have h : (tree? {} 12 ring .provenance
      (Designator.compose [.output 0, .element 0]) 1).isSome := by decide +kernel
  obtain ⟨t, ht⟩ := Option.isSome_iff_exists.1 h
  exact ⟨t, ht, tree_isClosure ht⟩

end Tracer

end Lineage
