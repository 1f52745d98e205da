import Lineage.Keeper.Graft
import Lineage.Proofs.Outline.Basic

/-!
# Grafts of outlines

A graft of what an outline attaches to a keeper with but a root attaches the same
outline, with other names for its parts (`graft_attachTo`): the nodes are copied
in the order in which they were made, and a part that is renamed like one before
it shares its node and its link.
-/

namespace Lineage.Keeper

variable {scratch k : Keeper} {subject : FunctionId} {f : Designator → Designator}
  {fuel : Nat} {id copied target : NodeId} {g : Grafting} {d : Designator} {ds : List Designator}

/-! ### Copies -/

/-- Copies what a link leads to, and links `target` to the copy. -/
def copyLink (scratch : Keeper) (subject : FunctionId) (f : Designator → Designator) (fuel : Nat)
    (target : NodeId) (g : Grafting) (e : Edge) : Grafting :=
  ⟨(copy scratch subject f fuel e.target g).1.keeper.addChild target
    (copy scratch subject f fuel e.target g).2 e.quality,
    (copy scratch subject f fuel e.target g).1.copies⟩

theorem copy_of_copied (h : g.copies.lookup id = some copied) :
    copy scratch subject f (fuel + 1) id g = (g, copied) := by
  rw [copy, h]

theorem copy_of_not_copied {kind : NodeKind} (h : g.copies.lookup id = none)
    (hk : scratch.kind? id = some kind) : copy scratch subject f (fuel + 1) id g =
      ((scratch.children id).foldl
        (copyLink scratch subject f fuel (g.keeper.copyNode subject f kind).2)
        ⟨(g.keeper.copyNode subject f kind).1,
          (id, (g.keeper.copyNode subject f kind).2) :: g.copies⟩,
        (g.keeper.copyNode subject f kind).2) := by
  rw [copy, h, node?_eq_some hk]
  rfl

/-- Nodes that stand for one of the parts `ds` have been copied to nodes that
    stand for the same part, renamed. -/
def Faithful (scratch : Keeper) (subject : FunctionId) (f : Designator → Designator)
    (ds : List Designator) (g : Grafting) : Prop :=
  ∀ d ∈ ds, ∀ id copied, scratch.kind? id = some (.object ⟨d, subject⟩) →
    g.copies.lookup id = some copied → g.keeper.find? ⟨f d, subject⟩ = some copied

/-- A node without links, which stands for one of the parts. -/
structure IsPart (scratch : Keeper) (subject : FunctionId) (ds : List Designator) (id : NodeId)
    (d : Designator) : Prop where
  mem : d ∈ ds
  kind : scratch.kind? id = some (.object ⟨d, subject⟩)
  children : scratch.children id = []

theorem faithful_of_not_copied (h : ∀ d ∈ ds, ∀ id, scratch.kind? id = some (.object ⟨d, subject⟩) →
    g.copies.lookup id = none) : Faithful scratch subject f ds g :=
  fun d hd id _ hk hl => absurd hl (h d hd id hk ▸ nofun)

/-- A graft that goes on from another: it has the copies of that one. -/
def Onward (g g' : Grafting) : Prop :=
  ∀ id copied, g.copies.lookup id = some copied → g'.copies.lookup id = some copied

/-- To copy a node for a part is to keep the part, renamed. -/
theorem copy_part (fuel : Nat) (hg : Faithful scratch subject f ds g)
    (hp : IsPart scratch subject ds id d) :
    (copy scratch subject f (fuel + 1) id g).1.keeper = (g.keeper.keep ⟨f d, subject⟩).1 ∧
      (copy scratch subject f (fuel + 1) id g).2 = (g.keeper.keep ⟨f d, subject⟩).2 ∧
      Faithful scratch subject f ds (copy scratch subject f (fuel + 1) id g).1 ∧
      Onward g (copy scratch subject f (fuel + 1) id g).1 ∧
      (copy scratch subject f (fuel + 1) id g).1.copies.lookup id =
        some (copy scratch subject f (fuel + 1) id g).2 := by
  cases h : g.copies.lookup id with
  | some copied =>
    rw [copy_of_copied h, keep_of_find? (hg d hp.mem id copied hp.kind h)]
    exact ⟨rfl, rfl, hg, fun _ _ hl => hl, h⟩
  | none =>
    rw [copy_of_not_copied h hp.kind, hp.children]
    refine ⟨rfl, rfl, fun d' hd' id' copied hk hl => ?_, fun id' copied hl => ?_, ?_⟩
    · change List.lookup id' ((id, _) :: g.copies) = some copied at hl
      rw [List.lookup_cons] at hl
      split at hl
      · next he =>
        obtain rfl := eq_of_beq he
        rw [hp.kind] at hk
        cases hk
        exact hl ▸ find?_keep
      · exact find?_mono le_keep (hg d' hd' id' copied hk hl)
    · change List.lookup id' ((id, _) :: g.copies) = some copied
      rw [List.lookup_cons]
      split
      · next he => exact absurd (eq_of_beq he ▸ hl) (h ▸ nofun)
      · exact hl
    · exact List.lookup_cons_self

/-- To copy links to nodes for parts is to attach the parts, renamed. -/
theorem foldl_copyLink {es : List Edge} {us : List Designator} {quality : Quality}
    (fuel : Nat) (target : NodeId) (hg : Faithful scratch subject f ds g)
    (he : List.Forall₂ (fun d e => IsPart scratch subject ds e.target d ∧ e.quality = quality)
      us es) :
    (es.foldl (copyLink scratch subject f (fuel + 1) target) g).keeper =
        (attach subject target quality (us.map f) g.keeper).1 ∧
      Faithful scratch subject f ds (es.foldl (copyLink scratch subject f (fuel + 1) target) g) ∧
      Onward g (es.foldl (copyLink scratch subject f (fuel + 1) target) g) ∧
      ∀ e ∈ es, ∃ copied, (es.foldl (copyLink scratch subject f (fuel + 1) target)
        g).copies.lookup e.target = some copied := by
  induction he generalizing g with
  | nil => exact ⟨rfl, hg, fun _ _ hl => hl, fun _ he => absurd he List.not_mem_nil⟩
  | @cons d e us es he _ ih =>
    obtain ⟨hp, rfl⟩ := he
    obtain ⟨hkeeper, hcopied, hfaithful, honward, hlookup⟩ := copy_part (f := f) fuel hg hp
    have hone : (copyLink scratch subject f (fuel + 1) target g e).keeper =
        g.keeper.attachOne subject target e.quality (f d) := by
      simp only [copyLink, hkeeper, hcopied]
      rfl
    have hg' : Faithful scratch subject f ds (copyLink scratch subject f (fuel + 1) target g e) :=
      fun d' hd' id copied hk hl => find?_mono le_addChild (hfaithful d' hd' id copied hk hl)
    obtain ⟨hattach, hfaithful', honward', hall⟩ := ih hg'
    refine ⟨by rw [List.foldl_cons, hattach, hone]; rfl, hfaithful',
      fun id copied hl => honward' id copied (honward id copied hl), fun e' he' => ?_⟩
    rcases List.mem_cons.1 he' with rfl | he'
    · exact ⟨_, honward' _ _ hlookup⟩
    · exact hall e' he'

/-- Nodes for parts that have been copied are not copied again. -/
theorem copyAll_of_copied {us : List Designator} {ids : List NodeId}
    (hg : Faithful scratch subject f ds g)
    (hall : ∀ d ∈ ds, ∀ id, scratch.kind? id = some (.object ⟨d, subject⟩) →
      ∃ copied, g.copies.lookup id = some copied) (hus : ∀ d ∈ us, d ∈ ds)
    (h : List.Forall₂ (fun d id => scratch.kind? id = some (.object ⟨d, subject⟩)) us ids) :
    (copyAll scratch subject f ids g).1 = g ∧
      List.Forall₂ (fun d id => g.keeper.find? ⟨d, subject⟩ = some id) (us.map f)
        (copyAll scratch subject f ids g).2 := by
  induction h with
  | nil => exact ⟨rfl, .nil⟩
  | @cons d id us ids hk _ ih =>
    have hd : d ∈ ds := hus d List.mem_cons_self
    obtain ⟨copied, hl⟩ := hall d hd id hk
    obtain ⟨heq, hcopies⟩ := ih fun d' hd' => hus d' (List.mem_cons_of_mem d hd')
    rw [copyAll, copy_of_copied hl]
    exact ⟨heq, .cons (hg d hd id copied hk hl) hcopies⟩

/-! ### Grafts -/

/-- A scratch with an outline below its root, and nothing below the parts. -/
structure Sketch (scratch : Keeper) (subject : FunctionId) (o : Outline) : Prop where
  unique : scratch.Unique
  shows : scratch.Shows subject 0 o
  /-- The root stands for something else than the parts. -/
  root : ∃ key, scratch.kind? 0 = some (.object key) ∧ ∀ d ∈ o.parts, ⟨d, subject⟩ ≠ key
  isPart : ∀ d ∈ o.parts, ∀ id, scratch.kind? id = some (.object ⟨d, subject⟩) →
    IsPart scratch subject o.parts id d

/-- An outline attached to a keeper with but a root. -/
theorem sketch_attachTo {key : ObjectKey} {o : Outline} (h : ∀ d ∈ o.parts, ⟨d, subject⟩ ≠ key) :
    Sketch (o.attachTo subject 0 (empty.keep key).1).1 subject o := by
  have hlt : 0 < (empty.keep key).1.size := size_keep_empty ▸ Nat.one_pos
  have hdrawn := drawn_attachTo (o := o) subject hlt
  have hroot : (o.attachTo subject 0 (empty.keep key).1).1.kind? 0 = some (.object key) :=
    kind?_mono hdrawn.le kind?_keep_empty
  refine ⟨hdrawn.unique unique_empty.keep, hdrawn.shows unique_empty.keep hlt children_keep,
    ⟨key, hroot, h⟩, fun d hd id hk => ⟨hd, hk, ?_⟩⟩
  have hid : id ≠ 0 := fun he => h d hd (NodeKind.object.inj (Option.some.inj (by
    rw [← hk, he, hroot])))
  rcases hdrawn.fresh id _ hk (size_keep_empty ▸ Nat.pos_of_ne_zero hid) with ⟨-, hc, -⟩ | ⟨-, hne⟩
  · exact hc
  · exact absurd rfl (hne _)

namespace Sketch

variable {o : Outline}

theorem ne_zero (hs : Sketch scratch subject o) {kind : NodeKind}
    (hk : scratch.kind? id = some kind)
    (hne : ∀ key, kind = .object key → ∃ d ∈ o.parts, key = ⟨d, subject⟩) : id ≠ 0 := fun he => by
  obtain ⟨key, hroot, hparts⟩ := hs.root
  rw [he, hroot] at hk
  obtain ⟨d, hd, rfl⟩ := hne key (Option.some.inj hk).symm
  exact hparts d hd rfl

/-- At first, the root alone has been copied. -/
theorem lookup_root (hid : id ≠ 0) : List.lookup id [((0 : NodeId), target)] = none := by
  rw [List.lookup_cons, beq_eq_false_iff_ne.2 hid]
  rfl

theorem faithful (hs : Sketch scratch subject o) :
    Faithful scratch subject f o.parts ⟨k, [(0, target)]⟩ :=
  faithful_of_not_copied fun d hd _ hk => lookup_root <|
    hs.ne_zero hk fun _ hkey => ⟨d, hd, (NodeKind.object.inj hkey).symm⟩

/-- To copy what is below the root is to attach the outline, renamed. -/
theorem foldl_copyLink (k : Keeper) (target : NodeId) (f : Designator → Designator)
    (hs : Sketch scratch subject o) :
    ((scratch.children 0).foldl (copyLink scratch subject f (scratch.size + 1) target)
        ⟨k, [(0, target)]⟩).keeper = ((o.rename f).attachTo subject target k).1 ∧
      Faithful scratch subject f o.parts ((scratch.children 0).foldl
        (copyLink scratch subject f (scratch.size + 1) target) ⟨k, [(0, target)]⟩) ∧
      ∀ d ∈ o.parts, ∀ id, scratch.kind? id = some (.object ⟨d, subject⟩) →
        ∃ copied, ((scratch.children 0).foldl
          (copyLink scratch subject f (scratch.size + 1) target)
          ⟨k, [(0, target)]⟩).copies.lookup id = some copied := by
  have hfaithful : Faithful scratch subject f o.parts ⟨k, [(0, target)]⟩ := hs.faithful
  cases o with
  | link quality d =>
    obtain ⟨id, hc, hk⟩ := hs.shows
    have hd : d ∈ (Outline.link quality d).parts := List.mem_cons_self
    have hlinks : List.Forall₂ (fun d' e => IsPart scratch subject [d] e.target d' ∧
        e.quality = quality) [d] (scratch.children 0) := by
      rw [hc]
      exact .cons ⟨hs.isPart d hd id hk, rfl⟩ .nil
    obtain ⟨hkeeper, hg, -, hall⟩ := Keeper.foldl_copyLink scratch.size target hfaithful hlinks
    refine ⟨hkeeper, hg, fun d' hd' id' hk' => ?_⟩
    obtain rfl := List.mem_singleton.1 hd'
    obtain rfl := hs.unique _ _ _ hk hk'
    exact hall ⟨id, quality⟩ (by rw [hc]; exact List.mem_cons_self)
  | junction j ds =>
    obtain ⟨id, hc, hk, hshowing⟩ := hs.shows
    have hid : id ≠ 0 := hs.ne_zero hk fun key he => absurd he (j.kind_ne_object key)
    obtain ⟨n, hn⟩ : ∃ n, scratch.size = n + 1 :=
      Nat.exists_eq_add_one_of_ne_zero (Nat.ne_of_gt (Nat.zero_lt_of_lt (lt_size_of_kind? hk)))
    have hcopy : k.copyNode subject f j.kind = k.push j.kind := by cases j <;> rfl
    -- The node that joins the parts is copied first, then its links.
    set g : Grafting := ⟨(k.push j.kind).1, [(id, k.size), (0, target)]⟩ with hg
    have hg' : Faithful scratch subject f ds g := faithful_of_not_copied fun d hd id' hk' => by
      have hne : id' ≠ id := fun he => by
        rw [he, hk] at hk'
        exact j.kind_ne_object _ (Option.some.inj hk')
      have hne' : id' ≠ 0 := hs.ne_zero hk' fun _ hkey => ⟨d, hd, (NodeKind.object.inj hkey).symm⟩
      rw [hg, List.lookup_cons, beq_eq_false_iff_ne.2 hne]
      exact lookup_root hne'
    obtain ⟨hkeeper, hfaithful', -, hall⟩ := Keeper.foldl_copyLink n k.size hg'
      (hshowing.forall₂.imp fun d e he => ⟨hs.isPart d he.1 _ he.2.1, he.2.2⟩)
    rw [attach_eraseDups f (by rw [size_push]; exact Nat.lt_succ_self _)] at hkeeper
    rw [hc, List.foldl_cons, List.foldl_nil, copyLink, copy_of_not_copied (lookup_root hid) hk,
      hcopy, hn]
    refine ⟨congrArg (Keeper.addChild · target k.size .exact) hkeeper, fun d hd id' copied hk' hl =>
      find?_mono le_addChild (hfaithful' d hd id' copied hk' hl), fun d hd id' hk' => ?_⟩
    obtain ⟨id'', hk'', he⟩ := hshowing.exists_link hd
    obtain rfl := hs.unique _ _ _ hk' hk''
    exact hall _ he

end Sketch

/-- A graft of an outline attaches the outline, with other names for its
    parts. -/
theorem graft_attachTo {key : ObjectKey} {o : Outline} (h : ∀ d ∈ o.parts, ⟨d, subject⟩ ≠ key)
    (ht : target < k.size) :
    k.graft subject (o.attachTo subject 0 (empty.keep key).1).1 0 target
      (o.attachTo subject 0 (empty.keep key).1).2 f = (o.rename f).attachTo subject target k := by
  have hs : Sketch (o.attachTo subject 0 (empty.keep key).1).1 subject o := sketch_attachTo h
  have hleaves := (drawn_attachTo (o := o) subject
    (show 0 < (empty.keep key).1.size from size_keep_empty ▸ Nat.one_pos)).find?_leaves
  generalize (o.attachTo subject 0 (empty.keep key).1).1 = scratch at hs hleaves
  generalize (o.attachTo subject 0 (empty.keep key).1).2 = leaves at hleaves
  obtain ⟨hkeeper, hfaithful, hall⟩ := hs.foldl_copyLink k target f
  set g := (scratch.children 0).foldl (copyLink scratch subject f (scratch.size + 1) target)
    ⟨k, [(0, target)]⟩ with hg
  have hgraft : k.graft subject scratch 0 target leaves f =
    ((copyAll scratch subject f leaves g).1.keeper, (copyAll scratch subject f leaves g).2) := rfl
  obtain ⟨heq, hcopies⟩ := copyAll_of_copied hfaithful hall (fun _ hd => hd)
    (hleaves.imp fun _ _ => kind?_of_find?)
  have hdrawn := (drawn_attachTo (o := o.rename f) subject ht).find?_leaves
  rw [hkeeper] at hcopies
  rw [Outline.parts_rename] at hdrawn
  rw [hgraft, heq]
  refine Prod.ext hkeeper (List.right_unique_forall₂' (fun _ _ _ h₁ h₂ => ?_) hcopies hdrawn)
  exact Option.some.inj (h₁.symm.trans h₂)

end Lineage.Keeper
