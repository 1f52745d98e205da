import Lineage.Proofs.Tree.Discovery

/-!
# Paths to leaves

`Tree.leafPaths` lists, on cyclic trees too, the paths from the root that repeat no node
and that cannot go on without doing so (`Tree.IsLeafPath`), in the lexicographic order of
the links that were taken, by their places (`Tree.follow?`). The listing is one of pairs
of choices and paths (`Tree.listingFrom`), and which pairs are in it is said at once for
all (`Simple.mem_listingFrom`).

Two choices may give the same path only where two links lead from a node to the same
child. In a traced tree none do: object nodes have one link, and those of AND and OR
nodes are all exact, and lead to different parts (`Lineage.Tracer.Grown.nodup_targets`).

`Tree.collect?` is the enumeration link by link, without a result where it would not end
or would look for a node that is not there.
-/

namespace Lineage.Tree

variable {t : Tree} {id last : NodeId} {fuel n : Nat} {before path rest : List NodeId}
  {c c' : List Nat} {e : Edge}

/-! ### Enumerations that may have no result -/

/-- Collects the paths along each of several links, but for those that lead back to the path, which
    is given backwards; the path itself if there is no other link. -/
def collectAlong (collect : NodeId → Option (List (List NodeId))) (path : List NodeId) :
    List Edge → List (List NodeId) → Bool → Option (List (List NodeId))
  | [], paths, extended => some (if extended then paths else paths ++ [path.reverse])
  | e :: es, paths, extended =>
    if e.target ∈ path then collectAlong collect path es paths extended
    else do
      let below ← collect e.target
      collectAlong collect path es (paths ++ below) true

/-- The continuations of a path, as `pathsFrom`, if the enumeration ends. -/
def collect? (t : Tree) : Nat → NodeId → List NodeId → Option (List (List NodeId))
  | 0, _, _ => none
  | fuel + 1, last, before => do
    let node ← t.nodes[last]?
    collectAlong (fun id => collect? t fuel id (last :: before)) (last :: before) node.children []
      false

theorem collectAlong_eq {collect : NodeId → Option (List (List NodeId))}
    {f : NodeId → List (List NodeId)} {es : List Edge} {paths : List (List NodeId)}
    {extended : Bool} (h : ∀ e ∈ es, e.target ∉ path → collect e.target = some (f e.target)) :
    collectAlong collect path es paths extended =
      let next := es.filter (·.target ∉ path)
      some (if !extended && next.isEmpty then paths ++ [path.reverse]
        else paths ++ next.flatMap fun e => f e.target) := by
  induction es generalizing paths extended with
  | nil => cases extended <;> simp [collectAlong]
  | cons e es ih =>
    obtain ⟨he, hes⟩ := List.forall_mem_cons.1 h
    rw [collectAlong]
    by_cases hmem : e.target ∈ path
    · rw [if_pos hmem, ih hes]
      simp [hmem]
    · rw [if_neg hmem, he hmem]
      change collectAlong collect path es (paths ++ f e.target) true = _
      rw [ih hes]
      simp [hmem]

/-- A path that repeats no node, given backwards from its last node on, and fuel for the nodes that
    are not on it. -/
structure Simple (t : Tree) (fuel : Nat) (last : NodeId) (before : List NodeId) : Prop where
  nodup : (last :: before).Nodup
  lt : ∀ id ∈ last :: before, id < t.size
  enough : t.size ≤ fuel + before.length

theorem simple_root (h : t.Closed) : t.Simple (t.size + 1) t.root [] where
  nodup := List.nodup_singleton _
  lt := List.forall_mem_singleton.2 h.root
  enough := Nat.le_succ _

namespace Simple

/-- There are no more nodes on a path than in the tree. -/
theorem fuel_pos (h : t.Simple fuel last before) : 0 < fuel := by
  have hsub : last :: before ⊆ List.range t.size := fun id hid => List.mem_range.2 (h.lt id hid)
  have hle := (List.subperm_of_subset h.nodup hsub).length_le
  rw [List.length_cons, List.length_range] at hle
  have := h.enough
  omega

theorem follow (h : t.Simple (fuel + 1) last before) (hclosed : t.Closed)
    (he : e ∈ t.children last) (hn : e.target ∉ last :: before) :
    t.Simple fuel e.target (last :: before) where
  nodup := List.nodup_cons.2 ⟨hn, h.nodup⟩
  lt := List.forall_mem_cons.2
    ⟨hclosed.target last (h.lt last List.mem_cons_self) e he, h.lt⟩
  enough := by
    have := h.enough
    rw [List.length_cons]
    omega

/-- The enumeration ends. -/
theorem collect?_eq (h : t.Simple fuel last before) (hclosed : t.Closed) :
    t.collect? fuel last before = some (t.pathsFrom fuel last before) := by
  induction fuel generalizing last before with
  | zero => exact absurd h.fuel_pos (Nat.lt_irrefl 0)
  | succ fuel ih =>
    obtain ⟨node, hnode, hc⟩ := exists_node (h.lt last List.mem_cons_self)
    rw [collect?, pathsFrom, hnode]
    change collectAlong (fun id => t.collect? fuel id (last :: before)) (last :: before)
      node.children [] false = _
    rw [← hc, collectAlong_eq (f := fun id => t.pathsFrom fuel id (last :: before))
      fun e he hn => ih (h.follow hclosed he hn)]
    simp

end Simple

/-! ### Choices -/

/-- The path from a node along the links at the given places, if there are such links. -/
def follow? (t : Tree) (last : NodeId) : List Nat → Option (List NodeId)
  | [] => some [last]
  | n :: c => do
    let e ← (t.children last)[n]?
    let path ← follow? t e.target c
    return last :: path

theorem follow?_cons_eq_some_iff : t.follow? last (n :: c) = some path ↔
    ∃ e rest, (t.children last)[n]? = some e ∧ t.follow? e.target c = some rest ∧
      path = last :: rest := by
  rw [follow?]
  simp only [bind, Option.bind_eq_some_iff, pure, Option.some.injEq, eq_comm (a := path)]
  tauto

/-- A path by choices is one along links. -/
theorem follow?_isChain (h : t.follow? id c = some path) :
    path.head? = some id ∧ path.IsChain t.Linked := by
  induction c generalizing id path with
  | nil =>
    obtain rfl := Option.some.inj h
    exact ⟨rfl, .singleton _⟩
  | cons n c ih =>
    obtain ⟨e, rest, he, hrest, rfl⟩ := follow?_cons_eq_some_iff.1 h
    obtain ⟨hhead, hchain⟩ := ih hrest
    refine ⟨rfl, List.isChain_cons.2 ⟨fun j hj => ?_, hchain⟩⟩
    rw [hhead] at hj
    exact ⟨e, List.mem_of_getElem? he, Option.some.inj hj⟩

/-- A path along links is one by choices. -/
theorem exists_follow? (h : (id :: path).IsChain t.Linked) :
    ∃ c, t.follow? id c = some (id :: path) := by
  induction path generalizing id with
  | nil => exact ⟨[], rfl⟩
  | cons j path ih =>
    obtain ⟨⟨e, he, rfl⟩, hchain⟩ := List.isChain_cons_cons.1 h
    obtain ⟨c, hc⟩ := ih hchain
    obtain ⟨n, hn⟩ := List.mem_iff_getElem?.1 he
    exact ⟨n :: c, follow?_cons_eq_some_iff.2 ⟨e, _, hn, hc, rfl⟩⟩

/-- No two links lead from a node to the same child. -/
def SinglyLinked (t : Tree) : Prop := ∀ id, ((t.children id).map Edge.target).Nodup

/-- Then no two choices give the same path. -/
theorem SinglyLinked.eq_of_follow? (ht : t.SinglyLinked) (h : t.follow? id c = some path)
    (h' : t.follow? id c' = some path) : c = c' := by
  have hne {j : NodeId} {c : List Nat} : t.follow? j c ≠ some [] := fun h =>
    absurd (follow?_isChain h).1 nofun
  induction c generalizing id path c' with
  | nil =>
    obtain rfl := Option.some.inj h
    cases c' with
    | nil => rfl
    | cons n' c' =>
      obtain ⟨e, rest, -, hrest, he⟩ := follow?_cons_eq_some_iff.1 h'
      obtain rfl := (List.cons.inj he).2
      exact absurd hrest hne
  | cons n c ih =>
    obtain ⟨e, rest, he, hrest, rfl⟩ := follow?_cons_eq_some_iff.1 h
    cases c' with
    | nil =>
      obtain rfl := (List.cons.inj (Option.some.inj h')).2
      exact absurd hrest hne
    | cons n' c' =>
      obtain ⟨e', rest', he', hrest', heq⟩ := follow?_cons_eq_some_iff.1 h'
      obtain rfl := (List.cons.inj heq).2
      -- Both choices go on from the second node of the path.
      have htarget : e'.target = e.target := Option.some.inj
        ((follow?_isChain hrest').1.symm.trans (follow?_isChain hrest).1)
      rw [htarget] at hrest'
      obtain rfl := ih hrest hrest'
      have hn : ((t.children id).map Edge.target)[n]? = some e.target := by
        rw [List.getElem?_map, he]
        rfl
      have hn' : ((t.children id).map Edge.target)[n']? = some e.target := by
        rw [List.getElem?_map, he', ← htarget]
        rfl
      rw [(List.getElem?_inj (List.getElem?_eq_some_iff.1 hn).1 (ht id)).1 (hn.trans hn'.symm)]

/-! ### Listings -/

/-- The links that do not lead back to the path, with their places. -/
def ways (t : Tree) (last : NodeId) (before : List NodeId) : List (Edge × Nat) :=
  (t.children last).zipIdx.filter fun w => w.1.target ∉ last :: before

theorem mem_ways_iff : (e, n) ∈ t.ways last before ↔
    (t.children last)[n]? = some e ∧ e.target ∉ last :: before := by
  rw [ways, List.mem_filter, List.mem_zipIdx_iff_getElem?, decide_eq_true_eq]

theorem map_fst_ways : (t.ways last before).map Prod.fst =
    (t.children last).filter (·.target ∉ last :: before) := by
  conv_rhs => rw [← List.zipIdx_map_fst 0 (t.children last), List.filter_map]
  rfl

theorem pairwise_ways : (t.ways last before).Pairwise fun w w' => w.2 < w'.2 := by
  refine List.Pairwise.filter _ (List.pairwise_map.1 ?_)
  rw [List.zipIdx_map_snd]
  exact List.pairwise_lt_range'

/-- The continuations of a path, as `pathsFrom`, each with the choices that lead to it. -/
def listingFrom (t : Tree) : Nat → NodeId → List NodeId → List (List Nat × List NodeId)
  | 0, last, before => [([], (last :: before).reverse)]
  | fuel + 1, last, before =>
    if (t.ways last before).isEmpty then [([], (last :: before).reverse)]
    else (t.ways last before).flatMap fun w =>
      (listingFrom t fuel w.1.target (last :: before)).map fun l => (w.2 :: l.1, l.2)

theorem map_snd_listingFrom :
    (t.listingFrom fuel last before).map Prod.snd = t.pathsFrom fuel last before := by
  induction fuel generalizing last before with
  | zero => rfl
  | succ fuel ih =>
    rw [listingFrom, pathsFrom, ← map_fst_ways, List.isEmpty_map]
    split
    · rfl
    · simp only [List.map_flatMap, List.map_map, List.flatMap_map, ← ih]
      rfl

/-- The listing is in lexicographic order: what begins with the same choice is listed together. -/
theorem pairwise_listingFrom :
    (t.listingFrom fuel last before).Pairwise fun l l' => l.1 < l'.1 := by
  induction fuel generalizing last before with
  | zero => exact List.pairwise_singleton _ _
  | succ fuel ih =>
    rw [listingFrom]
    split
    · exact List.pairwise_singleton _ _
    · -- Of two that begin with the same choice, the rest decides; of others, the first choice.
      refine List.pairwise_flatMap.2 ⟨fun w _ => ?_, pairwise_ways.imp fun hlt l hl l' hl' => ?_⟩
      · exact List.pairwise_map.2 (ih.imp fun h => List.cons_lt_cons_iff.2 (.inr ⟨rfl, h⟩))
      · obtain ⟨_, -, rfl⟩ := List.mem_map.1 hl
        obtain ⟨_, -, rfl⟩ := List.mem_map.1 hl'
        exact List.cons_lt_cons_iff.2 (.inl hlt)

theorem ways_eq_nil_iff :
    t.ways last before = [] ↔ ∀ e ∈ t.children last, e.target ∈ last :: before := by
  rw [← List.map_eq_nil_iff (f := Prod.fst), map_fst_ways, List.filter_eq_nil_iff]
  simp only [decide_eq_true_eq, not_not]

theorem mem_listingFrom_nil : ([], path) ∈ t.listingFrom (fuel + 1) last before ↔
    (∀ e ∈ t.children last, e.target ∈ last :: before) ∧ path = (last :: before).reverse := by
  rw [listingFrom, ← ways_eq_nil_iff]
  simp only [List.isEmpty_iff]
  split
  · next h => simp [h]
  · next h => simp [h]

theorem mem_listingFrom_cons : (n :: c, path) ∈ t.listingFrom (fuel + 1) last before ↔
    ∃ e, (t.children last)[n]? = some e ∧ e.target ∉ last :: before ∧
      (c, path) ∈ t.listingFrom fuel e.target (last :: before) := by
  simp only [← and_assoc, ← mem_ways_iff]
  rw [listingFrom]
  simp only [List.isEmpty_iff]
  split
  · next h => simp [h]
  · simp

/-- A path from the root that repeats no node and cannot go on without doing so. -/
structure IsLeafPath (t : Tree) (path : List NodeId) : Prop where
  head : path.head? = some t.root
  chain : path.IsChain t.Linked
  nodup : path.Nodup
  last : ∀ last ∈ path.getLast?, ∀ child, t.Linked last child → child ∈ path

/-- What is listed is what can be chosen, without repeating a node, until there is no choice. -/
theorem Simple.mem_listingFrom (h : t.Simple fuel last before) (hclosed : t.Closed) :
    (c, path) ∈ t.listingFrom fuel last before ↔ ∃ rest, t.follow? last c = some rest ∧
      path = before.reverse ++ rest ∧ path.Nodup ∧
      ∀ last ∈ path.getLast?, ∀ e ∈ t.children last, e.target ∈ path := by
  induction fuel generalizing last before c path with
  | zero => exact absurd h.fuel_pos (Nat.lt_irrefl 0)
  | succ fuel ih =>
    have hnodup : (before.reverse ++ [last]).Nodup := by
      simpa using List.nodup_reverse.2 h.nodup
    cases c with
    | nil =>
      rw [mem_listingFrom_nil, List.reverse_cons]
      constructor
      · rintro ⟨hall, rfl⟩
        refine ⟨[last], rfl, rfl, hnodup, fun i hi e he => ?_⟩
        obtain rfl : last = i := by simpa using hi
        simpa [or_comm] using hall e he
      · rintro ⟨_, hrest, rfl, -, hall⟩
        obtain rfl := Option.some.inj hrest
        refine ⟨fun e he => ?_, rfl⟩
        simpa [or_comm] using hall last (by simp) e he
    | cons n c =>
      rw [mem_listingFrom_cons]
      constructor
      · rintro ⟨e, he, hn, hmem⟩
        obtain ⟨rest, hrest, rfl, hpath⟩ :=
          (ih (h.follow hclosed (List.mem_of_getElem? he) hn)).1 hmem
        exact ⟨last :: rest, follow?_cons_eq_some_iff.2 ⟨e, rest, he, hrest, rfl⟩, by simp, hpath⟩
      · rintro ⟨_, hchoices, rfl, hpath⟩
        obtain ⟨e, rest, he, hrest, rfl⟩ := follow?_cons_eq_some_iff.1 hchoices
        have heq : before.reverse ++ last :: rest = (last :: before).reverse ++ rest := by simp
        rw [heq] at hpath ⊢
        -- The path goes on with the target of the link, which is thus not on it yet.
        have hn : e.target ∉ last :: before := fun hmem =>
          List.disjoint_of_nodup_append hpath.1 (List.mem_reverse.2 hmem)
            (List.mem_of_mem_head? (follow?_isChain hrest).1)
        exact ⟨e, he, hn, (ih (h.follow hclosed (List.mem_of_getElem? he) hn)).2
          ⟨rest, hrest, rfl, hpath⟩⟩

/-- From the root, what is listed are the paths by choices that are paths to leaves. -/
theorem mem_listingFrom_root (h : t.Closed) :
    (c, path) ∈ t.listingFrom (t.size + 1) t.root [] ↔
      t.follow? t.root c = some path ∧ t.IsLeafPath path := by
  rw [(simple_root h).mem_listingFrom h]
  constructor
  · rintro ⟨rest, hrest, rfl, hnodup, hlast⟩
    obtain ⟨hhead, hchain⟩ := follow?_isChain hrest
    refine ⟨hrest, hhead, hchain, hnodup, ?_⟩
    rintro last hl _ ⟨e, he, rfl⟩
    exact hlast last hl e he
  · rintro ⟨hfollow, hpath⟩
    exact ⟨path, hfollow, rfl, hpath.nodup, fun last hl e he => hpath.last last hl _ ⟨e, he, rfl⟩⟩

/-- What is known of the paths to the leaves of a tree. -/
structure PathsListed (t : Tree) : Prop where
  /-- The enumeration ends. -/
  ends : t.collect? (t.size + 1) t.root [] = some t.leafPaths
  mem_iff : ∀ path, path ∈ t.leafPaths ↔ t.IsLeafPath path
  /-- The paths are in the order of the choices that lead to them, and all choices are among these
      that lead to a path of this kind. -/
  sorted : ∃ listing : List (List Nat × List NodeId), listing.map Prod.snd = t.leafPaths ∧
    listing.Pairwise (fun l l' => l.1 < l'.1) ∧
    ∀ c path, (c, path) ∈ listing ↔ t.follow? t.root c = some path ∧ t.IsLeafPath path
  nodup : t.SinglyLinked → t.leafPaths.Nodup

theorem pathsListed (h : t.Closed) : t.PathsListed where
  ends := (simple_root h).collect?_eq h
  mem_iff path := by
    rw [leafPaths, ← map_snd_listingFrom, List.mem_map]
    constructor
    · rintro ⟨⟨c, path⟩, hmem, rfl⟩
      exact ((mem_listingFrom_root h).1 hmem).2
    · intro hpath
      obtain ⟨rest, rfl⟩ := List.head?_eq_some_iff.1 hpath.head
      obtain ⟨c, hc⟩ := exists_follow? hpath.chain
      exact ⟨(c, _), (mem_listingFrom_root h).2 ⟨hc, hpath⟩, rfl⟩
  sorted := ⟨_, map_snd_listingFrom, pairwise_listingFrom, fun _ _ => mem_listingFrom_root h⟩
  nodup ht := by
    rw [leafPaths, ← map_snd_listingFrom]
    refine List.Nodup.map_on ?_ (pairwise_listingFrom.imp fun hlt he => ?_)
    · rintro ⟨c, path⟩ hmem ⟨c', _⟩ hmem' rfl
      rw [ht.eq_of_follow? ((mem_listingFrom_root h).1 hmem).1 ((mem_listingFrom_root h).1 hmem').1]
    · exact absurd (he ▸ hlt) (lt_irrefl _)

/-- The paths to the leaves of a tree are listed; in a traced tree, once each. -/
theorem pathsListed_of_closed (t : Tree) : (t.Closed → t.PathsListed) ∧
    ∀ (tracer : Tracer) (fuel : Nat) (w : Wiring) (query : Query) (d : Designator)
      (root : FunctionId), tracer.tree? fuel w query d root = some t →
      t.Closed ∧ t.SinglyLinked := by
  refine ⟨pathsListed, fun tracer fuel w query d root h => ?_⟩
  obtain ⟨last, hrun, rfl, -⟩ := Tracer.exists_run h
  have hg : Tracer.Grown w query ⟨d, root⟩ last := Tracer.grown_start.run hrun
  exact ⟨⟨Keeper.lt_size_of_kind? hg.root, fun id _ e he => hg.target_lt he⟩,
    fun id => hg.nodup_targets⟩

/-- Two choices give the first path, and one path ends in a dead end; the tree of a trace around a
    cycle has no such links. -/
theorem pathsListed_webbed : webbed.PathsListed ∧
    webbed.leafPaths = [[0, 1, 4], [0, 2, 3], [0, 2, 4], [0, 2, 5], [0, 1, 4], [0, 3]] ∧
    ∃ t, Tracer.tree? {} 12 Tracer.ring .provenance (Designator.compose [.output 0, .element 0]) 1 =
      some t ∧ t.Closed ∧ t.SinglyLinked := by
  have h : (Tracer.tree? {} 12 Tracer.ring .provenance
      (Designator.compose [.output 0, .element 0]) 1).isSome := by decide +kernel
  obtain ⟨t, ht⟩ := Option.isSome_iff_exists.1 h
  exact ⟨(pathsListed_of_closed webbed).1 closed_webbed, by decide,
    t, ht, (pathsListed_of_closed t).2 {} 12 Tracer.ring .provenance _ 1 ht⟩

end Lineage.Tree
