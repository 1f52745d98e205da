import Lineage.Proofs.Tree.Paths

/-!
# Ends of paths

The leaves of a tree are the nodes without links among the last nodes of the paths to leaves
(`leaves_agree`). They are found in the order of these paths, where nothing below the root is
on a cycle: whatever the search skips, it has searched before, and so the leaves below have
been found (`Visits.ends`). On a cycle it may skip a node whose leaves are still to be found.
-/

namespace Lineage

open Relation

/-! ### Lists without later repetitions -/

section Lists

variable {α : Type} [BEq α] [LawfulBEq α] {l l' : List α}

/-- Adds an element at the end, unless it is there. -/
def addNew (l : List α) (a : α) : List α := if a ∈ l then l else l ++ [a]

theorem foldl_addNew_of_subset (h : l' ⊆ l) : l'.foldl addNew l = l := by
  induction l' with
  | nil => rfl
  | cons a l' ih =>
    obtain ⟨ha, hl'⟩ := List.cons_subset.1 h
    rw [List.foldl_cons, addNew, if_pos ha, ih hl']

/-- To add the elements one by one is to leave out later repetitions. -/
theorem foldl_addNew_eq_eraseDups (l : List α) : l.foldl addNew [] = l.eraseDups := by
  induction l using List.reverseRecOn with
  | nil => rfl
  | append_singleton l a ih =>
    rw [List.foldl_concat, ih, addNew, List.eraseDups_append]
    by_cases ha : a ∈ l
    · simp [List.removeAll, ha]
    · simp [List.removeAll, List.eraseDups_cons, ha]

end Lists

/-- What can be reached at all can be reached without meeting an element twice. -/
theorem exists_nodup_path {α : Type} {r : α → α → Prop} {a b : α} (h : ReflTransGen r a b) :
    ∃ path : List α, path.head? = some a ∧ path.getLast? = some b ∧ path.IsChain r ∧
      path.Nodup := by
  classical
  induction h using ReflTransGen.head_induction_on with
  | refl => exact ⟨[b], rfl, rfl, .singleton b, List.nodup_singleton b⟩
  | @head a c hac _ ih =>
    obtain ⟨path, hhead, hlast, hchain, hnodup⟩ := ih
    obtain ⟨rest, rfl⟩ := List.head?_eq_some_iff.1 hhead
    by_cases ha : a ∈ c :: rest
    · -- The path meets `a` itself, and so may begin there.
      obtain ⟨front, back, heq⟩ := List.append_of_mem ha
      rw [heq] at hlast hchain hnodup
      refine ⟨a :: back, rfl, ?_, hchain.right_of_append, hnodup.of_append_right⟩
      rwa [List.getLast?_append_of_ne_nil _ (List.cons_ne_nil a back)] at hlast
    · refine ⟨a :: c :: rest, rfl, ?_, List.isChain_cons_cons.2 ⟨hac, hchain⟩,
        List.nodup_cons.2 ⟨ha, hnodup⟩⟩
      rwa [List.getLast?_cons_cons]

namespace Tree

variable {t : Tree} {id : NodeId} {fuel : Nat} {ids path before after : List NodeId} {e : Edge}

/-! ### Paths that meet no cycle -/

/-- The ends of the continuations of a path, given backwards. -/
def endsFrom (t : Tree) (fuel : Nat) (path : List NodeId) (id : NodeId) : List (Option NodeId) :=
  (t.pathsFrom fuel id path).map List.getLast?

/-- A path that repeats no node and meets no cycle, now or later, with fuel for what is left. -/
structure Straight (t : Tree) (fuel : Nat) (path : List NodeId) (id : NodeId) : Prop
    extends t.Simple fuel id path where
  leads : ∀ i ∈ path, TransGen t.Linked i id
  acyclic : ∀ i, ReflTransGen t.Linked id i → ¬TransGen t.Linked i i

namespace Straight

/-- The next node is on no cycle, so it is not behind. -/
theorem target_not_mem (h : t.Straight fuel path id) (he : e ∈ t.children id) :
    e.target ∉ id :: path := by
  have hlinked : t.Linked id e.target := ⟨e, he, rfl⟩
  refine fun hmem => h.acyclic e.target (.single hlinked) ?_
  rcases List.mem_cons.1 hmem with heq | hmem
  · exact .single (heq ▸ hlinked)
  · exact (h.leads _ hmem).tail hlinked

theorem follow (h : t.Straight (fuel + 1) path id) (hclosed : t.Closed) (he : e ∈ t.children id) :
    t.Straight fuel (id :: path) e.target where
  toSimple := h.toSimple.follow hclosed he (h.target_not_mem he)
  leads i hi := by
    have hlinked : t.Linked id e.target := ⟨e, he, rfl⟩
    rcases List.mem_cons.1 hi with rfl | hi
    · exact .single hlinked
    · exact (h.leads i hi).tail hlinked
  acyclic i hi := h.acyclic i (.head ⟨e, he, rfl⟩ hi)

/-- The path goes on along every link. -/
theorem endsFrom_eq (h : t.Straight (fuel + 1) path id) : t.endsFrom (fuel + 1) path id =
    if (t.children id).isEmpty then [some id]
    else (t.children id).flatMap fun e => t.endsFrom fuel (id :: path) e.target := by
  have hnext : (t.children id).filter (·.target ∉ id :: path) = t.children id :=
    List.filter_eq_self.2 fun e he => decide_eq_true (h.target_not_mem he)
  rw [endsFrom, pathsFrom, hnext]
  split
  · simp
  · exact List.map_flatMap

/-- Every end is a leaf. -/
theorem of_mem_endsFrom (h : t.Straight fuel path id) (hclosed : t.Closed) {o : Option NodeId}
    (ho : o ∈ t.endsFrom fuel path id) :
    ∃ leaf, o = some leaf ∧ t.children leaf = [] ∧ ReflTransGen t.Linked id leaf := by
  induction fuel generalizing path id with
  | zero => exact absurd h.fuel_pos (Nat.lt_irrefl 0)
  | succ fuel ih =>
    rw [h.endsFrom_eq] at ho
    split at ho
    · next hc =>
      obtain rfl := List.mem_singleton.1 ho
      exact ⟨id, rfl, List.isEmpty_iff.1 hc, .refl⟩
    · obtain ⟨e, he, ho⟩ := List.mem_flatMap.1 ho
      obtain ⟨leaf, rfl, hc, hleaf⟩ := ih (h.follow hclosed he) ho
      exact ⟨leaf, rfl, hc, .head ⟨e, he, rfl⟩ hleaf⟩

end Straight

/-! ### The order of discovery -/

/-- The leaves among the nodes that have been discovered. -/
def leavesAmong (t : Tree) (before : List NodeId) : List (Option NodeId) :=
  (before.filter fun id => (t.children id).isEmpty).map some

/-- All leaves below a node have been discovered. -/
def Searched (t : Tree) (before : List NodeId) (id : NodeId) : Prop :=
  ∀ leaf, ReflTransGen t.Linked id leaf → t.children leaf = [] → leaf ∈ before

theorem Searched.mono (h : t.Searched before id) (hsub : before ⊆ after) : t.Searched after id :=
  fun leaf hleaf hc => hsub (h leaf hleaf hc)

/-- A node that has been discovered is searched when each of its children is. -/
theorem searched_of_children (hid : id ∈ before)
    (h : ∀ e ∈ t.children id, t.Searched before e.target) : t.Searched before id := by
  intro leaf hleaf hc
  rcases hleaf.cases_head with rfl | ⟨_, ⟨e, he, rfl⟩, hleaf⟩
  · exact hid
  · exact h e he leaf hleaf hc

theorem mem_leavesAmong {leaf : NodeId} :
    some leaf ∈ t.leavesAmong before ↔ leaf ∈ before ∧ t.children leaf = [] := by
  simp [leavesAmong]

/-- A node is added to the leaves if it has no links, and else what its children add is all. -/
theorem foldl_ends_node (hid : id ∉ before) {below : List (Option NodeId)}
    (hbelow : t.children id = [] → below = []) :
    (if (t.children id).isEmpty then [some id] else below).foldl addNew (t.leavesAmong before) =
      below.foldl addNew (t.leavesAmong (before ++ [id])) := by
  have hnew : some id ∉ t.leavesAmong before := fun h => hid (mem_leavesAmong.1 h).1
  split
  · next hc =>
    rw [hbelow (List.isEmpty_iff.1 hc), List.foldl_cons, addNew, if_neg hnew]
    simp [leavesAmong, hc]
  · next hc => simp [leavesAmong, hc]

/-- The ends of the paths that go on from several nodes in turn are, where they come first, the
    leaves that the traversal of these nodes discovers. -/
theorem Visits.ends (hv : t.Visits ids before after) (hclosed : t.Closed)
    (hids : ∀ id ∈ ids, t.Straight fuel path id)
    (hbefore : ∀ i ∈ before, i ∈ path ∨ t.Searched before i) :
    (ids.flatMap (t.endsFrom fuel path)).foldl addNew (t.leavesAmong before) =
        t.leavesAmong after ∧
      (∀ i ∈ after, i ∈ path ∨ t.Searched after i) ∧ ∀ id ∈ ids, t.Searched after id := by
  induction hv generalizing fuel path with
  | nil => exact ⟨rfl, hbefore, fun _ h => absurd h List.not_mem_nil⟩
  | @skip id ids before after hid hv ih =>
    obtain ⟨hstraight, hids⟩ := List.forall_mem_cons.1 hids
    -- The node is not on the path, so what is below it has been searched.
    have hsearched : t.Searched before id :=
      (hbefore id hid).resolve_left (List.nodup_cons.1 hstraight.nodup).1
    have hsub : t.endsFrom fuel path id ⊆ t.leavesAmong before := by
      intro o ho
      obtain ⟨leaf, rfl, hc, hleaf⟩ := hstraight.of_mem_endsFrom hclosed ho
      exact mem_leavesAmong.2 ⟨hsearched leaf hleaf hc, hc⟩
    obtain ⟨heq, hafter, hall⟩ := ih hids hbefore
    refine ⟨?_, hafter, List.forall_mem_cons.2 ⟨hsearched.mono hv.subset, hall⟩⟩
    rw [List.flatMap_cons, List.foldl_append, foldl_addNew_of_subset hsub, heq]
  | @visit id ids before below after hid hbelow hv ihbelow ih =>
    obtain ⟨hstraight, hids⟩ := List.forall_mem_cons.1 hids
    obtain ⟨fuel, rfl⟩ := Nat.exists_eq_add_one.2 hstraight.fuel_pos
    -- While its children are visited, the node is on the path.
    obtain ⟨heqbelow, hpath, hchildren⟩ := ihbelow
      (List.forall_mem_map.2 fun e he => hstraight.follow hclosed he) fun i hi => by
        rcases List.mem_append.1 hi with hi | hi
        · exact (hbefore i hi).imp (List.mem_cons_of_mem id)
            fun h => h.mono (List.subset_append_left _ _)
        · exact .inl (List.mem_singleton.1 hi ▸ List.mem_cons_self)
    have hsearched : t.Searched below id :=
      searched_of_children (hbelow.subset (List.mem_append_right _ List.mem_cons_self))
        (List.forall_mem_map.1 hchildren)
    obtain ⟨heq, hafter, hall⟩ := ih hids fun i hi => by
      rcases hpath i hi with hi | hi
      · rcases List.mem_cons.1 hi with rfl | hi
        · exact .inr hsearched
        · exact .inl hi
      · exact .inr hi
    refine ⟨?_, hafter, List.forall_mem_cons.2 ⟨hsearched.mono hv.subset, hall⟩⟩
    rw [List.flatMap_map] at heqbelow
    rw [List.flatMap_cons, List.foldl_append, hstraight.endsFrom_eq,
      foldl_ends_node hid (fun hc => by rw [hc]; rfl), heqbelow, heq]

/-! ### Both enumerations -/

/-- The traversal from the root discovers the leaves in the order in which the search finds them. -/
theorem leaves_eq_of_visits (h : t.Closed) (hv : t.Visits [t.root] [] after) :
    t.leaves.map some = t.leavesAmong after := by
  obtain ⟨new, rfl, hnew⟩ := Finds.visits hv h (List.forall_mem_singleton.2 h.root) finds_nil
  have hleaves := hnew (t.edgeCount + 2) (by
    rw [List.reverse_nil, linksUnseen_nil, List.append_nil, List.length_singleton]
    omega)
  have heq : t.leaves = _ := leavesFrom?_eq_some hleaves
  rw [heq, List.append_nil]
  rfl

theorem straight_root (h : t.Closed)
    (hacyclic : ∀ id, ReflTransGen t.Linked t.root id → ¬TransGen t.Linked id id) :
    t.Straight (t.size + 1) [] t.root where
  toSimple := simple_root h
  leads _ hi := absurd hi List.not_mem_nil
  acyclic := hacyclic

/-- A node without links is a leaf just if a path to a leaf ends there. -/
theorem mem_leaves_iff_exists_leafPath (h : t.Closed) :
    id ∈ t.leaves ↔ t.children id = [] ∧ ∃ path ∈ t.leafPaths, path.getLast? = some id := by
  refine mem_leaves_iff.trans
    (and_congr_right fun hc => ⟨fun hreach => ?_, fun ⟨path, hpath, hlast⟩ => ?_⟩)
  · obtain ⟨path, hhead, hlast, hchain, hnodup⟩ := exists_nodup_path hreach
    refine ⟨path, ((pathsListed h).mem_iff path).2 ⟨hhead, hchain, hnodup, ?_⟩, hlast⟩
    -- There is no child that the path could go on with.
    rintro last hl child ⟨e, he, -⟩
    obtain rfl : id = last := Option.some.inj (hlast.symm.trans hl)
    exact absurd (hc ▸ he) List.not_mem_nil
  · obtain ⟨hhead, hchain, -, -⟩ := ((pathsListed h).mem_iff path).1 hpath
    obtain ⟨rest, rfl⟩ := List.head?_eq_some_iff.1 hhead
    obtain ⟨_, hid⟩ := List.mem_getLast?_eq_getLast hlast
    exact List.relationReflTransGen_of_exists_isChain_cons rest hchain hid.symm

/-- The leaves are the last nodes of the paths to leaves, if these have no links; where no cycle
    can be reached, they are in the order of the paths, each where it comes first. -/
theorem leaves_agree (h : t.Closed) :
    (∀ id, id ∈ t.leaves ↔ t.children id = [] ∧
      ∃ path ∈ t.leafPaths, path.getLast? = some id) ∧
    ((∀ id, ReflTransGen t.Linked t.root id → ¬TransGen t.Linked id id) →
      t.leaves.map some = (t.leafPaths.map List.getLast?).eraseDups) := by
  refine ⟨fun id => mem_leaves_iff_exists_leafPath h, fun hacyclic => ?_⟩
  obtain ⟨order, hvisits⟩ := exists_visits h (List.forall_mem_singleton.2 h.root) []
  obtain ⟨heq, -⟩ := hvisits.ends h (List.forall_mem_singleton.2 (straight_root h hacyclic))
    fun i hi => absurd hi List.not_mem_nil
  rw [List.flatMap_singleton] at heq
  rw [leaves_eq_of_visits h hvisits, ← foldl_addNew_eq_eraseDups]
  exact heq.symm

/-- Two nodes share a leaf, and one of them links to it again by way of the other. -/
def shared : Tree where
  root := 0
  nodes := #[
    ⟨.and, [⟨2, .exact⟩, ⟨1, .exact⟩]⟩,
    ⟨.or, [⟨5, .exact⟩, ⟨2, .exact⟩, ⟨3, .exact⟩]⟩,
    ⟨.and, [⟨3, .exact⟩, ⟨4, .exact⟩]⟩,
    ⟨.object ⟨.compose [.input 0], 0⟩, []⟩,
    ⟨.object ⟨.compose [.input 1], 0⟩, []⟩,
    ⟨.object ⟨.compose [.input 2], 0⟩, []⟩]

theorem closed_shared : shared.Closed := ⟨by decide, by decide⟩

/-- Links lead to later nodes. -/
theorem lt_of_linked_shared {i j : NodeId} (h : shared.Linked i j) : i < j := by
  obtain ⟨e, he, rfl⟩ := h
  have hall : ∀ i < shared.size, ∀ e ∈ shared.children i, i < e.target := by decide
  refine hall i (Nat.lt_of_not_le fun hle => ?_) e he
  exact absurd (children_of_size_le hle ▸ he) List.not_mem_nil

/-- Below the shared nodes nothing is found again; on a cycle, what is found is among the ends. -/
theorem leaves_agree_shared : shared.leaves = [3, 4, 5] ∧
    shared.leafPaths.map List.getLast? = [some 3, some 4, some 5, some 3, some 4, some 3] ∧
    shared.leaves.map some = (shared.leafPaths.map List.getLast?).eraseDups ∧
    ∀ id, id ∈ webbed.leaves ↔ webbed.children id = [] ∧
      ∃ path ∈ webbed.leafPaths, path.getLast? = some id := by
  refine ⟨by decide, by decide, (leaves_agree closed_shared).2 fun id _ hcycle => ?_,
    (leaves_agree closed_webbed).1⟩
  have hlt : TransGen (· < ·) id id :=
    TransGen.mono (fun _ _ => lt_of_linked_shared) _ _ hcycle
  rw [transGen_eq_self] at hlt
  exact Nat.lt_irrefl id hlt

end Tree

end Lineage
