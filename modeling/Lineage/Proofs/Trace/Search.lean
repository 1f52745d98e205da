import Lineage.Proofs.Trace.Tree
import Mathlib.Algebra.Order.BigOperators.Group.Finset

/-!
# The search for leaves

A depth-first search of a tree finds all that it looks for: the leaves of a tree
are the nodes without links to which links lead from the root (`mem_leaves_iff`).

Each node puts its links on the stack once, when it is first seen. So what is left
to do is bounded by the stack and the links of the nodes that have not been seen
(`linksUnseen`), and the search has fuel for that. A node that has not been seen is
still found if links lead to it from the stack by nodes that have not been seen
either (`Clear`): if the node that is visited next lies on the way, its links are on
the stack then, and the rest of the way goes on from one of them.
-/

namespace Lineage.Tree

open Relation

variable {t : Tree} {id start top : NodeId} {fuel : Nat} {stack seen : List NodeId}

/-- Links lead from a node to another by nodes that have not been seen, both
    included. -/
def Clear (t : Tree) (seen : List NodeId) (start id : NodeId) : Prop :=
  start ∉ seen ∧ ReflTransGen (fun i j => t.Linked i j ∧ j ∉ seen) start id

/-- Either the way stays clear when one more node has been seen, or it is clear
    from behind that node on. -/
theorem Clear.cons (h : t.Clear seen start id) (hid : id ≠ top) :
    t.Clear (top :: seen) start id ∨ ∃ next, t.Linked top next ∧ t.Clear (top :: seen) next id := by
  obtain ⟨hstart, h⟩ := h
  induction h using ReflTransGen.head_induction_on with
  | refl => exact .inl ⟨by simp [hid, hstart], .refl⟩
  | @head start next hnext _ ih =>
    rcases ih hnext.2 with hclear | hbehind
    · by_cases hs : start = top
      · exact .inr ⟨next, hs ▸ hnext.1, hclear⟩
      · exact .inl ⟨by simp [hs, hstart], .head ⟨hnext.1, hclear.1⟩ hclear.2⟩
    · exact .inr hbehind

/-- The number of links from nodes that have not been seen. -/
def linksUnseen (t : Tree) (seen : List NodeId) : Nat :=
  ∑ id ∈ (Finset.range t.size).filter (· ∉ seen), (t.children id).length

theorem children_of_size_le (h : t.size ≤ id) : t.children id = [] := by
  rw [children, Array.getElem?_eq_none h]
  rfl

/-- What a node puts on the stack is not left to be put there. -/
theorem linksUnseen_cons (h : top ∉ seen) :
    (t.children top).length + t.linksUnseen (top :: seen) ≤ t.linksUnseen seen := by
  by_cases htop : top < t.size
  · have herase : (Finset.range t.size).filter (· ∉ top :: seen) =
        ((Finset.range t.size).filter (· ∉ seen)).erase top := by
      ext id
      simp
      tauto
    rw [linksUnseen, linksUnseen, herase]
    refine Nat.le_of_eq (Finset.add_sum_erase _ (fun id => (t.children id).length) ?_)
    simp [htop, h]
  · rw [children_of_size_le (Nat.le_of_not_lt htop), List.length_nil, Nat.zero_add]
    refine Finset.sum_le_sum_of_subset fun id => ?_
    simp only [Finset.mem_filter, List.mem_cons]
    tauto

theorem linksUnseen_nil : t.linksUnseen [] = t.edgeCount := by
  have hmap : (List.range t.size).map (fun id => (t.children id).length) =
      t.nodes.toList.map fun n => n.children.length := by
    refine List.ext_getElem (by simp [size]) fun id h _ => ?_
    have hid : id < t.nodes.size := by simpa [size] using h
    simp [children, hid]
  have hfilter : (Finset.range t.size).filter (· ∉ ([] : List NodeId)) = Finset.range t.size := by
    simp
  rw [edgeCount, List.length_flatMap, ← hmap, linksUnseen, hfilter, Finset.sum_eq_multiset_sum,
    Finset.range_val, Multiset.range, Multiset.map_coe, Multiset.sum_coe]

/-- What can be reached from the stack and has no links is found. -/
theorem mem_leavesFrom_of_clear (hstart : start ∈ stack) (h : t.Clear seen start id)
    (hc : t.children id = []) (hfuel : stack.length + t.linksUnseen seen ≤ fuel) :
    id ∈ t.leavesFrom fuel stack seen := by
  induction fuel generalizing start stack seen with
  | zero =>
    have := List.length_pos_of_mem hstart
    omega
  | succ fuel ih =>
    cases stack with
    | nil => exact absurd hstart List.not_mem_nil
    | cons top stack =>
      rw [List.length_cons] at hfuel
      rw [leavesFrom]
      by_cases htop : top ∈ seen
      · -- The way does not begin there.
        rw [if_pos htop]
        have hne : start ≠ top := fun he => h.1 (he ▸ htop)
        exact ih ((List.mem_cons.1 hstart).resolve_left hne) h (by omega)
      · rw [if_neg htop]
        dsimp only
        have hlinks := linksUnseen_cons (t := t) htop
        by_cases hid : id = top
        · subst hid
          simp [hc]
        · have hmem : id ∈ t.leavesFrom fuel ((t.children top).map Edge.target ++ stack)
              (top :: seen) := by
            have hroom : ((t.children top).map Edge.target ++ stack).length +
                t.linksUnseen (top :: seen) ≤ fuel := by
              rw [List.length_append, List.length_map]
              omega
            rcases h.cons hid with hclear | ⟨next, ⟨e, he, rfl⟩, hclear⟩
            · have hne : start ≠ top := fun he => hclear.1 (he ▸ List.mem_cons_self)
              have hmem := (List.mem_cons.1 hstart).resolve_left hne
              exact ih (List.mem_append_right _ hmem) hclear hroom
            · exact ih (List.mem_append_left _ (List.mem_map_of_mem he)) hclear hroom
          split
          · exact List.mem_cons_of_mem _ hmem
          · exact hmem

/-- What a search finds has no links, and can be reached from the stack. -/
theorem mem_leavesFrom (h : id ∈ t.leavesFrom fuel stack seen) :
    t.children id = [] ∧ ∃ start ∈ stack, ReflTransGen t.Linked start id := by
  induction fuel generalizing stack seen with
  | zero => exact absurd h List.not_mem_nil
  | succ fuel ih =>
    cases stack with
    | nil => exact absurd h List.not_mem_nil
    | cons top stack =>
      -- Either the search goes on with the rest, or with what is below as well.
      have hrest (h : id ∈ t.leavesFrom fuel stack seen) :
          t.children id = [] ∧ ∃ start ∈ top :: stack, ReflTransGen t.Linked start id := by
        obtain ⟨hc, start, hstart, h⟩ := ih h
        exact ⟨hc, start, List.mem_cons_of_mem top hstart, h⟩
      have hbelow (h : id ∈ t.leavesFrom fuel ((t.children top).map Edge.target ++ stack)
          (top :: seen)) :
          t.children id = [] ∧ ∃ start ∈ top :: stack, ReflTransGen t.Linked start id := by
        obtain ⟨hc, start, hstart, h⟩ := ih h
        refine ⟨hc, ?_⟩
        rcases List.mem_append.1 hstart with hstart | hstart
        · obtain ⟨e, he, rfl⟩ := List.mem_map.1 hstart
          exact ⟨top, List.mem_cons_self, .head ⟨e, he, rfl⟩ h⟩
        · exact ⟨start, List.mem_cons_of_mem top hstart, h⟩
      rw [leavesFrom] at h
      split at h
      · exact hrest h
      · dsimp only at h
        split at h
        · next hc =>
          rcases List.mem_cons.1 h with rfl | h
          · exact ⟨List.isEmpty_iff.1 hc, id, List.mem_cons_self, .refl⟩
          · exact hbelow h
        · exact hbelow h

/-- The leaves of a tree are the nodes without links that can be reached from the
    root. -/
theorem mem_leaves_iff :
    id ∈ t.leaves ↔ t.children id = [] ∧ ReflTransGen t.Linked t.root id := by
  constructor
  · intro h
    obtain ⟨hc, start, hstart, h⟩ := mem_leavesFrom h
    obtain rfl := List.mem_singleton.1 hstart
    exact ⟨hc, h⟩
  · rintro ⟨hc, h⟩
    have hclear : t.Clear [] t.root id :=
      ⟨List.not_mem_nil, ReflTransGen.mono (fun _ _ hij => ⟨hij, List.not_mem_nil⟩) _ _ h⟩
    refine mem_leavesFrom_of_clear List.mem_cons_self hclear hc ?_
    rw [linksUnseen_nil, List.length_singleton]
    omega

/-- A leaf has no links, and is the root or is linked to. -/
theorem mem_leaves (h : id ∈ t.leaves) :
    t.children id = [] ∧ (id = t.root ∨ ∃ i, t.Linked i id) := by
  obtain ⟨hc, h⟩ := mem_leaves_iff.1 h
  refine ⟨hc, ?_⟩
  rcases h.cases_tail with he | ⟨i, -, hi⟩
  · exact .inl he
  · exact .inr ⟨i, hi⟩

end Lineage.Tree
