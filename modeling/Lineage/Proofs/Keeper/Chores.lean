import Lineage.Proofs.Keeper.Sound
import Lineage.Proofs.Outline.Answer

/-!
# Keepers at work

All that is done to a keeper is a list of chores (`Chore`), each of which names nodes
that are there when its turn comes (`Chore.Fits`). A chore may bring a keeper of its
own, on which other chores were done, and graft what is there.

Whatever the chores, the nodes and the register of the keeper agree at all times, and
what the keeper has come by stays (`wellKept_of_reached`). This rests on what one chore
does: it extends a sound keeper (`extended_perform`). For a graft, the keeper
that is grafted from has to be sound as well; it is by the same argument about the
chores that were done on it.
-/

namespace Lineage

/-- What can be done to a keeper. -/
inductive Chore where
  | keep (key : ObjectKey)
  | andNode
  | orNode
  | addChild (parent child : NodeId) (quality : Quality)
  | objectNode (subject : FunctionId) (d : Designator)
  | linkAllInputs (subject : FunctionId) (arity : Nat) (root : NodeId)
  /-- A witness explains the part `d` of an output, for which `root` stands. -/
  | answer (w : Witness) (query : Query) (d : Designator) (subject : FunctionId) (root : NodeId)
  /-- What hangs below `source` in another keeper, on which the chores `scratch` were done, is
      grafted onto `target`. -/
  | graft (subject : FunctionId) (scratch : List Chore) (source target : NodeId)
    (leaves : List NodeId) (rename : Designator → Designator)

namespace Chore

mutual

/-- Does what is asked, and gives the nodes that result. -/
def perform (k : Keeper) : Chore → Keeper × List NodeId
  | keep key => ((k.keep key).1, [(k.keep key).2])
  | andNode => (k.andNode.1, [k.andNode.2])
  | orNode => (k.orNode.1, [k.orNode.2])
  | addChild parent child quality => (k.addChild parent child quality, [])
  | objectNode subject d => ((k.objectNode subject d).1, [(k.objectNode subject d).2])
  | linkAllInputs subject arity root => k.linkAllInputs subject arity root
  | answer w query d subject root => w.answer query d subject root k
  | graft subject scratch source target leaves rename =>
    k.graft subject (performAll .empty scratch) source target leaves rename

/-- Does one chore after another. -/
def performAll (k : Keeper) : List Chore → Keeper
  | [] => k
  | c :: cs => performAll (perform k c).1 cs

end

mutual

/-- The chore names nodes of the keeper, and of the keeper that is grafted from. -/
def Fits (k : Keeper) : Chore → Prop
  | addChild parent child _ => parent < k.size ∧ child < k.size
  | linkAllInputs _ _ root => root < k.size
  | answer _ _ _ _ root => root < k.size
  | graft _ scratch source target leaves _ =>
    AllFit .empty scratch ∧ source < (performAll .empty scratch).size ∧
      (∀ leaf ∈ leaves, leaf < (performAll .empty scratch).size) ∧ target < k.size
  | _ => True

/-- Each chore names nodes that are there when its turn comes. -/
def AllFit (k : Keeper) : List Chore → Prop
  | [] => True
  | c :: cs => Fits k c ∧ AllFit (perform k c).1 cs

end

end Chore

namespace Keeper

mutual

/-- A chore extends a sound keeper, and gives nodes of it. -/
theorem extended_perform : ∀ (c : Chore) {k : Keeper}, k.Sound → c.Fits k →
    Extended k (c.perform k).1 ∧ ∀ id ∈ (c.perform k).2, id < (c.perform k).1.size
  | .keep key, k, h, _ => by
    rw [Chore.perform]
    refine ⟨h.extended_keep key, List.forall_mem_singleton.2 ?_⟩
    exact lt_size_of_kind? (kind?_of_find? find?_keep)
  | .objectNode subject d, k, h, _ => by
    rw [Chore.perform]
    refine ⟨h.extended_keep ⟨d, subject⟩, List.forall_mem_singleton.2 ?_⟩
    exact lt_size_of_kind? (kind?_of_find? find?_keep)
  | .andNode, k, h, _ | .orNode, k, h, _ => by
    rw [Chore.perform]
    refine ⟨h.extended_push (by simp), List.forall_mem_singleton.2 ?_⟩
    exact size_push.symm ▸ Nat.lt_succ_self k.size
  | .addChild parent child quality, k, h, hfits => by
    rw [Chore.Fits] at hfits
    rw [Chore.perform]
    exact ⟨h.extended_addChild hfits.1 hfits.2, List.forall_mem_nil _⟩
  | .linkAllInputs subject arity root, k, h, hfits => by
    rw [Chore.Fits] at hfits
    rw [Chore.perform]
    exact h.extended_attachTo hfits (.allInputs arity)
  | .answer w query d subject root, k, h, hfits => by
    rw [Chore.Fits] at hfits
    rw [Chore.perform, Witness.answer_eq hfits]
    exact h.extended_attachTo hfits (w.outline query d)
  | .graft subject scratch source target leaves rename, k, h, hfits => by
    rw [Chore.Fits] at hfits
    obtain ⟨hscratch, hsource, hleaves, htarget⟩ := hfits
    rw [Chore.perform]
    -- The keeper that is grafted from was sound when it had no nodes.
    exact h.extended_graft (extended_performAll scratch sound_empty hscratch).sound hsource
      hleaves htarget

/-- So do several chores. -/
theorem extended_performAll : ∀ (cs : List Chore) {k : Keeper}, k.Sound → Chore.AllFit k cs →
    Extended k (Chore.performAll k cs)
  | [], k, h, _ => by
    rw [Chore.performAll]
    exact h.extended
  | c :: cs, k, h, hfit => by
    rw [Chore.AllFit] at hfit
    rw [Chore.performAll]
    have hone := (extended_perform c h hfit.1).1
    exact hone.trans (extended_performAll cs hone.sound hfit.2)

end

/-- The keeper is what chores make of one without nodes. -/
def Reached (k : Keeper) : Prop :=
  ∃ cs, Chore.AllFit .empty cs ∧ Chore.performAll .empty cs = k

/-- The nodes of the keeper and its register agree, and what there is stays whatever is done. -/
structure WellKept (k : Keeper) : Prop where
  /-- The part that is registered for a node is the one that the node stands for. -/
  object : ∀ id key, k.object? id = some key ↔ k.kind? id = some (.object key)
  /-- The node that is registered for a part is the one that stands for it. -/
  find : ∀ key id, k.find? key = some id ↔ k.kind? id = some (.object key)
  /-- No two nodes stand for the same part. -/
  unique : ∀ i j key, k.kind? i = some (.object key) → k.kind? j = some (.object key) → i = j
  /-- The entries of the register are the object nodes; it has no part and no node twice. -/
  entries : ∀ key id, (key, id) ∈ k.kept.entries ↔ k.kind? id = some (.object key)
  nodup_parts : (k.kept.entries.map Prod.fst).Nodup
  nodup_numbers : (k.kept.entries.map Prod.snd).Nodup
  /-- To keep a part that has a node changes nothing, and gives the node. -/
  known : ∀ key id, k.kind? id = some (.object key) → k.keep key = (k, id)
  /-- The node that is given for a part stays the same, whatever is done in the meantime. -/
  first : ∀ key cs, Chore.AllFit (k.keep key).1 cs →
    (Chore.performAll (k.keep key).1 cs).keep key =
      (Chore.performAll (k.keep key).1 cs, (k.keep key).2)
  /-- Links lead to nodes. -/
  target : ∀ id, ∀ e ∈ k.children id, e.target < k.size
  /-- No link is there twice. -/
  nodup : ∀ id, (k.children id).Nodup
  /-- A chore leaves the nodes of the kinds they are of. -/
  kind : ∀ c : Chore, c.Fits k → ∀ id < k.size, (c.perform k).1.kind? id = k.kind? id
  /-- It leaves them the links they have, in order, and may add others behind them. -/
  children : ∀ c : Chore, c.Fits k → ∀ id, k.children id <+: (c.perform k).1.children id
  /-- What it gives are nodes. -/
  given : ∀ c : Chore, c.Fits k → ∀ id ∈ (c.perform k).2, id < (c.perform k).1.size

/-- Whatever is done to a keeper that begins without nodes, its nodes and its register agree at all
    times, and what it has stays. -/
theorem wellKept_of_reached {k : Keeper} (h : k.Reached) : k.WellKept := by
  obtain ⟨cs, hfit, rfl⟩ := h
  have hs : (Chore.performAll .empty cs).Sound := (extended_performAll cs sound_empty hfit).sound
  generalize Chore.performAll .empty cs = k at hs
  constructor
  case object => exact fun id key => object?_eq_some_iff
  case find => exact fun key id => hs.find?_eq_some_iff
  case unique => exact hs.unique
  case entries => exact fun key id => mem_entries
  case nodup_parts => exact hs.nodup_parts
  case nodup_numbers => exact nodup_numbers k
  case known => exact fun key id hk => keep_of_find? (hs.unique.find? hk)
  case first =>
    intro key cs hfit
    have hrest := extended_performAll cs (hs.extended_keep key).sound hfit
    exact keep_of_find? (find?_mono hrest.le find?_keep)
  case target => exact hs.target
  case nodup => exact hs.nodup
  case kind => exact fun c hc id hid => kind?_of_lt (extended_perform c hs hc).1.le hid
  case children => exact fun c hc => (extended_perform c hs hc).1.children
  case given => exact fun c hc => (extended_perform c hs hc).2

/-- An answer is given at a node, and then linked back to it; a cycle is grafted onto a node of the
    answer, and one of its nodes becomes a part of the same list. -/
def chores : List Chore :=
  [.keep ⟨.compose [.output 0, .element 0], 7⟩,
    .answer (.applied [.quantified 2 [0, 1]]) .causality (.compose [.element 0]) 7 0,
    .addChild 2 0 .underApprox,
    .keep ⟨.compose [.output 0, .element 0], 7⟩,
    .graft 7 [.keep ⟨.compose [.output 0], 7⟩, .andNode, .objectNode 7 (.compose [.input 0]),
        .addChild 0 1 .exact, .addChild 1 0 .overApprox, .addChild 1 2 .exact]
      0 3 [1, 2] (Witness.moveToElement 0),
    .orNode,
    .linkAllInputs 7 1 6]

/-- Five of the nine nodes stand for parts. -/
theorem wellKept_chores : (Chore.performAll .empty chores).Reached ∧
    (Chore.performAll .empty chores).WellKept ∧ (Chore.performAll .empty chores).size = 9 ∧
    (Chore.performAll .empty chores).kept.entries =
      [(⟨.compose [.output 0, .element 0], 7⟩, 0),
        (⟨.compose [.input 0, .element 0, .element 0], 7⟩, 2),
        (⟨.compose [.input 0, .element 0, .element 1], 7⟩, 3),
        (⟨.compose [.input 0, .element 0], 7⟩, 5), (⟨.compose [.input 0], 7⟩, 8)] := by
  have hfit : Chore.AllFit .empty chores := by
    simp only [chores, Chore.AllFit, Chore.Fits]
    decide +kernel
  have h : (Chore.performAll .empty chores).Reached := ⟨chores, hfit, rfl⟩
  exact ⟨h, wellKept_of_reached h, by decide +kernel, by decide +kernel⟩

end Keeper

end Lineage
