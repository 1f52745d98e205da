import Lineage.Proofs.Graft.Step
import Lineage.Proofs.Outcomes

/-!
# Images of grafts

A graft ends, on cyclic scratches too: a node is noted before what is below it is
copied, so no call is made below itself for the same node, and calls are nested no
deeper than the scratch has nodes (`Scion.exists_isGraft`). What it has noted in the
end is a map `φ` from the nodes that links lead to, and the keeper afterwards is the
keeper before with the image of these nodes and of all their links, and nothing else
(`Scion.IsGraft`).

`Scion.graft?` is the graft with a bound on the nesting, and without a result where the
bound is met or a link leads to no node.
-/

namespace Lineage.Scion

open Keeper

variable {s : Scion} {k : Keeper} {g g' : Grafting} {fuel : Nat} {id copied : NodeId} {e : Edge}
  {es : List Edge}

/-! ### Grafts that may have no result -/

/-- Copies a node and all below it, as `Keeper.copy` does. -/
def copy? (s : Scion) : Nat → NodeId → Grafting → Option (Grafting × NodeId)
  | 0, _, _ => none
  | fuel + 1, id, g =>
    match g.copies.lookup id with
    | some copied => some (g, copied)
    | none => do
      let node ← s.scratch.node? id
      let (keeper, copied) := g.keeper.copyNode s.subject s.rename node.kind
      let g ← node.children.foldlM
        (fun g edge => do
          let (g, child) ← copy? s fuel edge.target g
          return ⟨g.keeper.addChild copied child edge.quality, g.copies⟩)
        ⟨keeper, (id, copied) :: g.copies⟩
      return (g, copied)

/-- Copies what a link leads to, and links `copied` to the copy. -/
def copyLink? (s : Scion) (fuel : Nat) (copied : NodeId) (g : Grafting) (e : Edge) :
    Option Grafting := do
  let (g, child) ← s.copy? fuel e.target g
  return ⟨g.keeper.addChild copied child e.quality, g.copies⟩

/-- Copies several nodes in order. -/
def copyAll? (s : Scion) (fuel : Nat) : List NodeId → Grafting → Option (Grafting × List NodeId)
  | [], g => some (g, [])
  | id :: ids, g => do
    let (g, copied) ← s.copy? fuel id g
    let (g, rest) ← copyAll? s fuel ids g
    return (g, copied :: rest)

/-- Grafts onto a keeper, and gives the copies of the leaves. -/
def graft? (s : Scion) (fuel : Nat) (k : Keeper) : Option (Keeper × List NodeId) := do
  let node ← s.scratch.node? s.source
  let g ← node.children.foldlM (s.copyLink? fuel s.target) (s.start k)
  let (g, copied) ← s.copyAll? fuel s.leaves g
  return (g.keeper, copied)

/-- The graft of the keeper. -/
def graft (s : Scion) (k : Keeper) : Keeper × List NodeId :=
  k.graft s.subject s.scratch s.source s.target s.leaves s.rename

theorem copy?_of_copied (h : g.copies.lookup id = some copied) :
    s.copy? (fuel + 1) id g = some (g, copied) := by
  rw [copy?, h]

theorem copy?_of_not_copied {kind : NodeKind} (h : g.copies.lookup id = none)
    (hk : s.scratch.kind? id = some kind) : s.copy? (fuel + 1) id g =
      ((s.scratch.children id).foldlM
        (s.copyLink? fuel (g.keeper.copyNode s.subject s.rename kind).2)
        ⟨(g.keeper.copyNode s.subject s.rename kind).1,
          (id, (g.keeper.copyNode s.subject s.rename kind).2) :: g.copies⟩).map
        (·, (g.keeper.copyNode s.subject s.rename kind).2) := by
  rw [copy?, h, node?_eq_some hk, Option.map_eq_bind]
  rfl

/-! ### Copies that end -/

/-- All links of a node that has been copied have been copied. -/
def Completed (s : Scion) (g : Grafting) (id : NodeId) : Prop :=
  ∃ copied, g.copies.lookup id = some copied ∧ ∀ e ∈ s.scratch.children id,
    ∃ child, g.copies.lookup e.target = some child ∧
      ⟨child, e.quality⟩ ∈ g.keeper.children copied

theorem Completed.run (h : s.Completed g id) (hr : s.Run g g') : s.Completed g' id := by
  obtain ⟨copied, hid, h⟩ := h
  refine ⟨copied, hr.onward _ _ hid, fun e he => ?_⟩
  obtain ⟨child, hchild, hmem⟩ := h e he
  exact ⟨child, hr.onward _ _ hchild, hr.mem_children hmem⟩

/-- From `g` to `g'`, nodes are copied, and each with all its links. -/
structure Completes (s : Scion) (g g' : Grafting) : Prop where
  run : s.Run g g'
  completed : ∀ id copied, g'.copies.lookup id = some copied →
    g.copies.lookup id = some copied ∨ s.Completed g' id

theorem Completes.refl (s : Scion) (g : Grafting) : s.Completes g g := ⟨.refl, fun _ _ => .inl⟩

theorem Completes.trans {g'' : Grafting} (h : s.Completes g g') (h' : s.Completes g' g'') :
    s.Completes g g'' where
  run := h.run.trans h'.run
  completed id copied hid := by
    rcases h'.completed id copied hid with hid | hid
    · exact (h.completed id copied hid).imp_right fun h => h.run h'.run
    · exact .inr hid

/-- To copy a node ends, and completes what is copied. -/
def CopyEnds (s : Scion) (fuel : Nat) (id : NodeId) (g : Grafting) : Prop :=
  ∃ g' copied, s.copy? fuel id g = some (g', copied) ∧
    copy s.scratch s.subject s.rename fuel id g = (g', copied) ∧ s.Completes g g' ∧
    g'.copies.lookup id = some copied

/-- The nodes that have been copied leave enough of the bound for the others. -/
structure Ready (s : Scion) (k : Keeper) (fuel : Nat) (g : Grafting) : Prop where
  grafted : s.Grafted k g
  enough : s.scratch.size < fuel + g.copies.length

theorem Ready.run (h : s.Ready k fuel g) (hr : s.Run g g') : s.Ready k fuel g' :=
  ⟨h.grafted.run hr, Nat.lt_of_lt_of_le h.enough (Nat.add_le_add_left hr.length_le fuel)⟩

/-- The links of a node are copied one after another. -/
theorem exists_foldlM (hcopy : ∀ id g, s.Ready k fuel g → s.Reached id → s.CopyEnds fuel id g)
    (hg : s.Ready k fuel g) (hid : g.copies.lookup id = some copied)
    (hes : ∀ e ∈ es, e ∈ s.scratch.children id) :
    ∃ g', es.foldlM (s.copyLink? fuel copied) g = some g' ∧
      es.foldl (copyLink s.scratch s.subject s.rename fuel copied) g = g' ∧ s.Completes g g' ∧
      ∀ e ∈ es, ∃ child, g'.copies.lookup e.target = some child ∧
        ⟨child, e.quality⟩ ∈ g'.keeper.children copied := by
  induction es generalizing g with
  | nil => exact ⟨g, rfl, rfl, .refl s g, fun _ => nofun⟩
  | cons e es ih =>
    obtain ⟨he, hes⟩ := List.forall_mem_cons.1 hes
    obtain ⟨g₁, child, htry, heq, hcompletes, hchild⟩ :=
      hcopy e.target g hg ((hg.grafted.reached id copied hid).target he)
    have hid₁ := hcompletes.run.onward _ _ hid
    have hlink : s.Step g₁ ⟨g₁.keeper.addChild copied child e.quality, g₁.copies⟩ :=
      .link he hid₁ hchild
    have hcompletes' : s.Completes g ⟨g₁.keeper.addChild copied child e.quality, g₁.copies⟩ :=
      hcompletes.trans ⟨.single hlink, fun _ _ => .inl⟩
    obtain ⟨g', htry', heq', hrest, hall⟩ := ih (hg.run hcompletes'.run) hid₁ hes
    refine ⟨g', ?_, ?_, hcompletes'.trans hrest, List.forall_mem_cons.2 ⟨?_, hall⟩⟩
    · rw [List.foldlM_cons, copyLink?, htry]
      exact htry'
    · rw [List.foldl_cons, copyLink, heq]
      exact heq'
    · refine ⟨child, hrest.run.onward _ _ hchild, hrest.run.mem_children ?_⟩
      rw [children_addChild ((hg.run hcompletes.run).grafted.lt id copied hid₁), if_pos rfl]
      exact mem_addLink.2 (.inr rfl)

/-- A node is noted before what is below it is copied, so the bound need not exceed the number of
    nodes that have not been copied. -/
theorem exists_copy (hlt : ∀ id, s.Reached id → id < s.scratch.size) (hg : s.Ready k fuel g)
    (hr : s.Reached id) : s.CopyEnds fuel id g := by
  induction fuel generalizing id g with
  | zero =>
    have hle := hg.grafted.length_le hlt
    have henough := hg.enough
    omega
  | succ fuel ih =>
    cases hn : g.copies.lookup id with
    | some copied => exact ⟨g, copied, copy?_of_copied hn, copy_of_copied hn, .refl s g, hn⟩
    | none =>
      obtain ⟨kind, hk⟩ := exists_kind? (hlt id hr)
      -- The node is noted, so the bound is enough below it, though it is one less there.
      have hnode : s.Step g _ := .node hr hn hk
      rw [CopyEnds, copy?_of_not_copied hn hk, copy_of_not_copied hn hk]
      generalize (g.keeper.copyNode s.subject s.rename kind).1 = keeper,
        (g.keeper.copyNode s.subject s.rename kind).2 = copied at hnode ⊢
      have hid : ((id, copied) :: g.copies).lookup id = some copied := List.lookup_cons_self
      obtain ⟨g', htry, heq, hcompletes, hall⟩ := exists_foldlM (fun _ _ => ih)
        ⟨hg.grafted.step hnode, by simpa [Nat.add_assoc, Nat.add_comm 1] using hg.enough⟩ hid
        (fun _ he => he)
      have hid' := hcompletes.run.onward _ _ hid
      refine ⟨g', copied, by rw [htry]; rfl, by rw [heq], ⟨.head hnode hcompletes.run, ?_⟩, hid'⟩
      intro i c hi
      rcases hcompletes.completed i c hi with hi | hi
      · rcases (lookup_cons_iff hn).1 hi with ⟨rfl, rfl⟩ | hi
        · exact .inr ⟨_, hid', hall⟩
        · exact .inl hi
      · exact .inr hi

theorem exists_copyAll {ids : List NodeId} (hlt : ∀ id, s.Reached id → id < s.scratch.size)
    (hg : s.Ready k (s.scratch.size + 1) g) (hids : ∀ id ∈ ids, s.Reached id) :
    ∃ g' copied, s.copyAll? (s.scratch.size + 1) ids g = some (g', copied) ∧
      copyAll s.scratch s.subject s.rename ids g = (g', copied) ∧ s.Completes g g' ∧
      List.Forall₂ (fun id c => g'.copies.lookup id = some c) ids copied := by
  induction ids generalizing g with
  | nil => exact ⟨g, [], rfl, rfl, .refl s g, .nil⟩
  | cons id ids ih =>
    obtain ⟨hid, hids⟩ := List.forall_mem_cons.1 hids
    obtain ⟨g₁, c, htry, heq, hcompletes, hc⟩ := exists_copy hlt hg hid
    obtain ⟨g', copied, htry', heq', hrest, hall⟩ := ih (hg.run hcompletes.run) hids
    refine ⟨g', c :: copied, ?_, ?_, hcompletes.trans hrest,
      .cons (hrest.run.onward _ _ hc) hall⟩
    · rw [copyAll?, htry]
      change (s.copyAll? _ ids g₁).bind _ = _
      rw [htry']
      rfl
    · rw [copyAll, heq]
      dsimp only
      rw [heq']

/-- A graft has a result, and in the end all that has been copied is complete. -/
theorem exists_completed (hlt : ∀ id, s.Reached id → id < s.scratch.size) (hu : k.Unique)
    (ht : s.target < k.size) : ∃ g copied,
      s.graft? (s.scratch.size + 1) k = some (g.keeper, copied) ∧ s.graft k = (g.keeper, copied) ∧
      s.Grafted k g ∧ (∀ id c, g.copies.lookup id = some c → s.Completed g id) ∧
      List.Forall₂ (fun id c => g.copies.lookup id = some c) s.leaves copied := by
  have hstart : s.Ready k (s.scratch.size + 1) (s.start k) :=
    ⟨grafted_start hu ht, Nat.lt_succ_of_lt (Nat.lt_succ_self _)⟩
  have hsource : (s.start k).copies.lookup s.source = some s.target := hstart.grafted.source
  obtain ⟨kind, hk⟩ := exists_kind? (hlt s.source reached_source)
  obtain ⟨g₁, htry, heq, hlinks, hall⟩ := exists_foldlM (fun _ _ => exists_copy hlt) hstart hsource
    fun _ he => he
  have hleaf : ∀ id ∈ s.leaves, s.Reached id := fun _ => reached_leaf
  obtain ⟨g, copied, htry', heq', hleaves, hcopied⟩ := exists_copyAll hlt (hstart.run hlinks.run)
    hleaf
  refine ⟨g, copied, ?_, ?_, hstart.grafted.run (hlinks.run.trans hleaves.run), ?_, hcopied⟩
  · rw [graft?, node?_eq_some hk]
    change ((s.scratch.children s.source).foldlM (s.copyLink? _ s.target) (s.start k)).bind _ = _
    rw [htry]
    change (s.copyAll? _ s.leaves g₁).bind _ = _
    rw [htry']
    rfl
  · have hgraft : s.graft k = ((copyAll s.scratch s.subject s.rename s.leaves
        ((s.scratch.children s.source).foldl (copyLink s.scratch s.subject s.rename
          (s.scratch.size + 1) s.target) (s.start k))).1.keeper,
        (copyAll s.scratch s.subject s.rename s.leaves
        ((s.scratch.children s.source).foldl (copyLink s.scratch s.subject s.rename
          (s.scratch.size + 1) s.target) (s.start k))).2) := rfl
    rw [hgraft, heq, heq']
  · intro id c hid
    rcases (hlinks.trans hleaves).completed id c hid with hid | hid
    · -- The source is there from the start, and its links are copied first.
      obtain ⟨rfl, -⟩ := ((lookup_cons_iff rfl).1 hid).resolve_right nofun
      exact Completed.run ⟨s.target, hlinks.run.onward _ _ hsource, hall⟩ hleaves.run
    · exact hid

/-! ### The image -/

/-- The keeper `k'` is `k` with what is grafted: `φ` maps the nodes that links lead to, and
    `copied` are the images of the leaves. -/
structure IsGraft (s : Scion) (k k' : Keeper) (copied : List NodeId) (φ : NodeId → NodeId) :
    Prop where
  source : φ s.source = s.target
  /-- The image of another node for a part is the one node for the renamed part. -/
  part : ∀ id key, s.Reached id → id ≠ s.source → s.scratch.kind? id = some (.object key) →
    ∀ i, k'.kind? i = some (.object ⟨s.rename key.designator, s.subject⟩) ↔ i = φ id
  /-- The image of another AND or OR node is a new node of its kind. -/
  joint : ∀ id, s.Reached id → s.Joint id →
    k'.kind? (φ id) = s.scratch.kind? id ∧ k.size ≤ φ id
  distinct : ∀ i j, s.Reached i → s.Reached j → s.Joint i → s.Joint j → φ i = φ j → i = j
  /-- All that is new is an image. -/
  new : ∀ id, k.size ≤ id → id < k'.size → ∃ i, s.Reached i ∧ i ≠ s.source ∧ φ i = id
  /-- What was there is of the kind it was of. -/
  kind : ∀ id < k.size, k'.kind? id = k.kind? id
  /-- The links are those that were there, and the images of links. -/
  links : ∀ id e, e ∈ k'.children id ↔ e ∈ k.children id ∨
    ∃ i, s.Reached i ∧ φ i = id ∧ ∃ e' ∈ s.scratch.children i, e = ⟨φ e'.target, e'.quality⟩
  /-- Those that were there come first, and none of the others is there twice. -/
  kept : ∀ id, ∃ es, k'.children id = k.children id ++ es ∧ es.Nodup ∧ ∀ e ∈ es, e ∉ k.children id
  unique : k'.Unique
  leaves : copied = s.leaves.map φ

/-- All that links lead to has been copied in the end. -/
theorem exists_lookup (hg : s.Grafted k g)
    (hcompleted : ∀ id c, g.copies.lookup id = some c → s.Completed g id)
    (hleaves : ∀ id ∈ s.leaves, ∃ c, g.copies.lookup id = some c) (hr : s.Reached id) :
    ∃ c, g.copies.lookup id = some c := by
  obtain ⟨start, hstart, hr⟩ := hr
  induction hr with
  | refl =>
    rcases List.mem_cons.1 hstart with rfl | hstart
    · exact ⟨_, hg.source⟩
    · exact hleaves start hstart
  | tail _ hlink ih =>
    obtain ⟨c, hc⟩ := ih
    obtain ⟨e, he, rfl⟩ := hlink
    obtain ⟨_, _, hall⟩ := hcompleted _ c hc
    obtain ⟨child, hchild, -⟩ := hall e he
    exact ⟨child, hchild⟩

/-- A graft with its copies is the image under what maps each node to its copy. -/
theorem Grafted.isGraft {copied : List NodeId} {φ : NodeId → NodeId} (hg : s.Grafted k g)
    (hcompleted : ∀ id c, g.copies.lookup id = some c → s.Completed g id)
    (hlookup : ∀ id, s.Reached id → g.copies.lookup id = some (φ id))
    (hcopied : List.Forall₂ (fun id c => g.copies.lookup id = some c) s.leaves copied) :
    s.IsGraft k g.keeper copied φ := by
  have hφ {id c : NodeId} (h : g.copies.lookup id = some c) : φ id = c :=
    Option.some.inj ((hlookup id (hg.reached id c h)).symm.trans h)
  constructor
  case source => exact hφ hg.source
  case part =>
    intro id key hr hne hk i
    have hcopy := hg.kind id _ _ (hlookup id hr) hne hk
    exact ⟨fun hi => hg.unique i _ _ hi hcopy, fun hi => hi ▸ hcopy⟩
  case joint =>
    intro id hr hjoint
    refine ⟨?_, hg.fresh id _ (hlookup id hr) hjoint⟩
    obtain ⟨kind, hk, -, hrenamed⟩ := hjoint.exists_kind
    rw [hk, hg.kind id _ kind (hlookup id hr) hjoint.1 hk, hrenamed]
  case distinct =>
    intro i j hi hj hij hjj heq
    exact hg.distinct i j _ (hlookup i hi) (heq ▸ hlookup j hj) hij hjj
  case new =>
    intro id hge hlt
    obtain ⟨i, hne, hi⟩ := hg.new id hge hlt
    exact ⟨i, hg.reached i id hi, hne, hφ hi⟩
  case kind => exact fun id hid => kind?_of_lt hg.le hid
  case links =>
    intro id e
    constructor
    · intro he
      rcases hg.image id e he with he | ⟨i, hi, e', he', htarget, hq⟩
      · exact .inl he
      · refine .inr ⟨i, hg.reached i id hi, hφ hi, e', he', ?_⟩
        rw [hφ htarget, ← hq]
    · rintro (he | ⟨i, hr, rfl, e', he', rfl⟩)
      · obtain ⟨es, hes, -⟩ := hg.kept id
        exact hes ▸ List.mem_append_left es he
      · obtain ⟨c, hc, hcompleted⟩ := hcompleted i _ (hlookup i hr)
        obtain ⟨child, hchild, hmem⟩ := hcompleted e' he'
        rwa [hφ hc, hφ hchild]
  case kept => exact hg.kept
  case unique => exact hg.unique
  case leaves =>
    rw [← List.forall₂_eq_eq_eq, List.forall₂_map_right_iff]
    exact hcopied.flip.imp fun c id h => (hφ h).symm

/-- Where links lead to nodes, so do those from the source and the leaves. -/
theorem Reached.lt (h : s.Reached id) (hlinks : ∀ id < s.scratch.size,
      ∀ e ∈ s.scratch.children id, e.target < s.scratch.size)
    (hsource : s.source < s.scratch.size) (hleaves : ∀ id ∈ s.leaves, id < s.scratch.size) :
    id < s.scratch.size := by
  obtain ⟨start, hstart, h⟩ := h
  induction h with
  | refl => exact (List.mem_cons.1 hstart).elim (fun he => he ▸ hsource) (hleaves start)
  | tail _ hlink ih =>
    obtain ⟨e, he, rfl⟩ := hlink
    exact hlinks _ ih e he

/-- A graft ends, and makes of a keeper that keeper with the image of what is grafted. -/
theorem exists_isGraft (hlinks : ∀ id < s.scratch.size, ∀ e ∈ s.scratch.children id,
      e.target < s.scratch.size) (hsource : s.source < s.scratch.size)
    (hleaves : ∀ id ∈ s.leaves, id < s.scratch.size) (hu : k.Unique) (ht : s.target < k.size) :
    ∃ k' copied φ, s.graft? (s.scratch.size + 1) k = some (k', copied) ∧
      s.graft k = (k', copied) ∧ s.IsGraft k k' copied φ := by
  obtain ⟨g, copied, htry, heq, hg, hcompleted, hcopied⟩ :=
    exists_completed (fun _ hr => hr.lt hlinks hsource hleaves) hu ht
  refine ⟨g.keeper, copied, fun id => (g.copies.lookup id).getD 0, htry, heq,
    hg.isGraft hcompleted (fun id hr => ?_) hcopied⟩
  obtain ⟨c, hc⟩ := exists_lookup hg hcompleted (exists_forall₂_iff.1 ⟨copied, hcopied⟩) hr
  rw [hc]
  rfl

/-- Part of what is grafted here lies on a cycle, and leads back to the source; all object nodes
    but the source are renamed alike, and the last leaf is not below the source. -/
def tangle : Scion where
  scratch := ⟨#[
    ⟨.object ⟨.compose [.output 0], 0⟩, [⟨1, .exact⟩]⟩,
    ⟨.and, [⟨2, .exact⟩, ⟨3, .overApprox⟩, ⟨0, .exact⟩]⟩,
    ⟨.object ⟨.compose [.input 0], 0⟩, []⟩,
    ⟨.object ⟨.compose [.input 1], 0⟩, [⟨1, .exact⟩]⟩,
    ⟨.object ⟨.compose [.input 2], 0⟩, [⟨2, .exact⟩]⟩]⟩
  source := 0
  leaves := [3, 4]
  target := 1
  subject := 5
  rename _ := .compose [.input 0]

/-- It is grafted here, where the part as which all are renamed has a node already, which leads to
    the target. -/
def bed : Keeper :=
  ((Keeper.empty.keep ⟨.compose [.input 0], 5⟩).1.keep ⟨.compose [.output 0], 5⟩).1.addChild 0 1
    .exact

/-- The graft of `bed`. -/
def tangled : Keeper :=
  ⟨#[⟨.object ⟨.compose [.input 0], 5⟩, [⟨1, .exact⟩, ⟨2, .exact⟩, ⟨0, .exact⟩]⟩,
    ⟨.object ⟨.compose [.output 0], 5⟩, [⟨2, .exact⟩]⟩,
    ⟨.and, [⟨0, .exact⟩, ⟨0, .overApprox⟩, ⟨1, .exact⟩]⟩]⟩

theorem isGraft_tangled : ∃ φ, tangle.graft bed = (tangled, [0, 0]) ∧
    tangle.IsGraft bed tangled [0, 0] φ := by
  have hgraft : tangle.graft bed = (tangled, [0, 0]) := by decide +kernel
  obtain ⟨k', copied, φ, -, heq, hφ⟩ := exists_isGraft (s := tangle) (k := bed) (by decide)
    (by decide) (by decide) unique_empty.keep.keep.addChild (by decide +kernel)
  obtain ⟨rfl, rfl⟩ := Prod.mk.inj (heq.symm.trans hgraft)
  exact ⟨φ, hgraft, hφ⟩

end Lineage.Scion
