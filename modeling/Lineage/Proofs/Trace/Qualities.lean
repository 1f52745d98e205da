import Lineage.Proofs.Tree.Qualities

/-!
# Qualities of explanations

All links of an explanation are exact, but those by which a match leads from a part of its text to
the range of the input where this was found; the witness of the match may be one of those of a
function applied to each element of a list (`Witness.Locates`). Where a match cannot tell a range,
it links to its whole input, as every function does that knows nothing finer, and this is exact.

So a path to a leaf always has a quality, and it is an over-approximation just if some match has
located a part along it (`Lineage.Tree.qualified_of_singlyLinked`).
-/

namespace Lineage

variable {query : Query} {d d' : Designator} {q : Quality}

/-! ### Matches -/

/-- The witness of a match, or the one of an element, tells at which part of the input a part of
    the output was found. -/
inductive Witness.Locates : Witness → Designator → Designator → Prop
  | found {place : Found} {d : Designator} {r : Range} (hr : place.inputRange? d.head = some r) :
    Locates (.found place) d (Designator.nest [.input 0, .range r] d.rest)
  | applied {elements : List Witness} {n : Nat} {w : Witness} {d d' : Designator}
    (hd : d.head = .element n) (hw : elements[n]? = some w) (h : Locates w d.rest d') :
    Locates (.applied elements) d (moveToElement n d')

namespace Witness

theorem Locates.outline_eq {w : Witness} (h : w.Locates d d') :
    w.outline query d = .link .overApprox d' := by
  induction h with
  | found hr => rw [outline, hr]
  | applied hd hw _ ih =>
    rw [outline, hd]
    dsimp only
    rw [outlineAt_eq, hw, Option.map_some, ih]
    rfl

mutual

/-- A link of an answer is exact, or it leads to where a match was found. -/
theorem outline_eq_link : ∀ (w : Witness) (d d' : Designator), w.outline query d = .link q d' →
    q = .exact ∨ q = .overApprox ∧ w.Locates d d'
  | linkAll arity, d, d', h => by
    rw [outline] at h
    exact absurd h nofun
  | forked, d, d', h => by
    rw [outline] at h
    exact .inl (Outline.link.inj h).1.symm
  | quantified length positions, d, d', h => by
    rw [outline] at h
    split at h <;> exact absurd h nofun
  | found place, d, d', h => by
    rw [outline] at h
    split at h
    · next r hr =>
      obtain ⟨rfl, rfl⟩ := Outline.link.inj h
      exact .inr ⟨rfl, .found hr⟩
    · exact absurd h nofun
  | applied elements, d, d', h => by
    rw [outline] at h
    split at h
    · exact .inl (Outline.link.inj h).1.symm
    · next n hn =>
      split at h
      · next o ho =>
        cases o with
        | link q' e =>
          obtain ⟨hq, rfl⟩ := Outline.link.inj h
          refine (outlineAt_eq_link elements n d.rest e (hq ▸ ho)).imp_right ?_
          exact fun ⟨hq, w, hw, hl⟩ => ⟨hq, .applied hn hw hl⟩
        | junction j ds => exact absurd h nofun
      · exact absurd h nofun
    · exact absurd h nofun

theorem outlineAt_eq_link : ∀ (ws : List Witness) (n : Nat) (d d' : Designator),
    outlineAt query d ws n = some (.link q d') →
      q = .exact ∨ q = .overApprox ∧ ∃ w, ws[n]? = some w ∧ w.Locates d d'
  | [], _, _, _, h => by
    rw [outlineAt] at h
    exact absurd h nofun
  | w :: _, 0, d, d', h => by
    rw [outlineAt] at h
    exact (outline_eq_link w d d' (Option.some.inj h)).imp_right fun ⟨hq, hl⟩ => ⟨hq, w, rfl, hl⟩
  | _ :: ws, n + 1, d, d', h => by
    rw [outlineAt] at h
    exact outlineAt_eq_link ws n d d' h

end

end Witness

/-! ### Links of traces -/

variable {w : Wiring} {key key' : ObjectKey} {subject : FunctionId}

/-- A match leads from a part of the output of a function to the part of its input where it was
    found. -/
structure Wiring.Finds (w : Wiring) (key key' : ObjectKey) : Prop where
  head : ∃ n, key.designator.head = .output n
  witness : ∃ witness, w.witness key.subject = some witness ∧
    witness.Locates key.designator.rest key'.designator
  subject : key'.subject = key.subject

theorem Wiring.Finds.rule_eq (h : w.Finds key key') :
    w.rule query key = some (key'.subject, .link .overApprox key'.designator) := by
  obtain ⟨⟨n, hn⟩, ⟨witness, hw, hl⟩, hsubject⟩ := h
  rw [rule_of_output hn, hw, Option.map_some, hl.outline_eq, hsubject]

theorem rule_eq_link (h : w.rule query key = some (subject, .link q d)) :
    q = .exact ∨ q = .overApprox ∧ w.Finds key ⟨d, subject⟩ := by
  rw [Wiring.rule] at h
  split at h
  · next n hn =>
    obtain ⟨witness, hw, heq⟩ := Option.map_eq_some_iff.1 h
    obtain ⟨rfl, ho⟩ := Prod.mk.inj heq
    refine (Witness.outline_eq_link witness _ d ho).imp_right (And.imp_right fun hl => ?_)
    exact ⟨⟨n, hn⟩, ⟨witness, hw, hl⟩, rfl⟩
  · obtain ⟨output, -, heq⟩ := Option.map_eq_some_iff.1 h
    exact .inl (Outline.link.inj (Prod.mk.inj heq).2).1.symm
  · cases h

/-- Between two nodes a match leads to where it was found. -/
def Keeper.Finds (k : Keeper) (w : Wiring) (i j : NodeId) : Prop :=
  ∃ key key', k.kind? i = some (.object key) ∧ k.kind? j = some (.object key') ∧ w.Finds key key'

/-- Links are exact, but those by which a match leads to where it was found. -/
theorem Tracer.Grown.quality_cases {s : Tracing} {id : NodeId} {e : Edge}
    (h : Grown w query key s) (he : e ∈ s.keeper.children id) :
    e.quality = .exact ∧ ¬s.keeper.Finds w id e.target ∨
      e.quality = .overApprox ∧ s.keeper.Finds w id e.target := by
  obtain ⟨kind, hk⟩ := Keeper.exists_kind? (Keeper.lt_size_of_mem_children he)
  rcases kind.object_or with ⟨key', rfl⟩ | hne
  · obtain ⟨subject, o, hr, hs⟩ := h.exists_shows hk he
    -- What a match finds is what explains the node.
    have hfinds : s.keeper.Finds w id e.target → ∃ d, o = .link .overApprox d := by
      rintro ⟨key'', target, hk', -, hf⟩
      obtain rfl := NodeKind.object.inj (Option.some.inj (hk.symm.trans hk'))
      exact ⟨_, (Prod.mk.inj (Option.some.inj (hr.symm.trans hf.rule_eq))).2⟩
    cases o with
    | link quality d =>
      obtain ⟨child, hc, hchild⟩ := hs
      obtain rfl := List.mem_singleton.1 (hc ▸ he)
      rcases rule_eq_link hr with rfl | ⟨rfl, hf⟩
      · refine .inl ⟨rfl, fun hf => ?_⟩
        obtain ⟨d', ho⟩ := hfinds hf
        exact absurd ho nofun
      · exact .inr ⟨rfl, key', _, hk, hchild, hf⟩
    | junction j ds =>
      obtain ⟨middle, hc, -⟩ := hs
      obtain rfl := List.mem_singleton.1 (hc ▸ he)
      refine .inl ⟨rfl, fun hf => ?_⟩
      obtain ⟨d', ho⟩ := hfinds hf
      exact absurd ho nofun
  · obtain ⟨_, _, _, _, _, -, -, -, -, hs⟩ := h.exists_junction hk hne
    obtain ⟨-, -, -, hq⟩ := hs.exists_part he
    refine .inl ⟨hq, fun ⟨key', _, hk', _⟩ => ?_⟩
    exact hne key' (Option.some.inj (hk.symm.trans hk'))

/-! ### Paths of traced trees -/

namespace Tree

variable {t : Tree}

/-- Along a path, a match leads to where it was found. -/
def FollowsMatch (t : Tree) (w : Wiring) (path : List NodeId) : Prop :=
  ∃ i j, [i, j] <:+: path ∧ t.keeper.Finds w i j

/-- A path to a leaf of a traced tree has a quality, which is an over-approximation where a match
    leads along it to where it was found, and exact elsewhere. -/
theorem exists_quality_of_leafPath {tracer : Tracer} {fuel : Nat} {root : FunctionId}
    {path : List NodeId} (h : tracer.tree? fuel w query d root = some t)
    (hpath : path ∈ t.leafPaths) :
    ∃ q, t.pathQuality? path = some q ∧ (q = .overApprox ↔ t.FollowsMatch w path) ∧
      (q = .exact ↔ ¬t.FollowsMatch w path) := by
  obtain ⟨last, hrun, rfl, -⟩ := Tracer.exists_run h
  have hg : Tracer.Grown w query ⟨d, root⟩ last := Tracer.grown_start.run hrun
  have hclosed : (last.keeper.toTree 0).Closed :=
    ⟨Keeper.lt_size_of_kind? hg.root, fun _ _ _ he => hg.target_lt he⟩
  have hchain : path.IsChain (last.keeper.toTree 0).Linked :=
    (((pathsListed hclosed).mem_iff path).1 hpath).chain
  have hsingly : (last.keeper.toTree 0).SinglyLinked := fun _ => hg.nodup_targets
  have hquality := hsingly.qualified path
  have hunder : ¬(last.keeper.toTree 0).Takes path .underApprox := by
    rintro ⟨i, e, he, -, hq⟩
    rcases hg.quality_cases he with ⟨hq', -⟩ | ⟨hq', -⟩ <;> exact absurd (hq'.symm.trans hq) nofun
  have hover : (last.keeper.toTree 0).Takes path .overApprox ↔
      (last.keeper.toTree 0).FollowsMatch w path := by
    constructor
    · rintro ⟨i, e, he, hinfix, hq⟩
      rcases hg.quality_cases he with ⟨hq', -⟩ | ⟨-, hf⟩
      · exact absurd (hq'.symm.trans hq) nofun
      · exact ⟨i, e.target, hinfix, hf⟩
    · rintro ⟨i, j, hinfix, hf⟩
      -- The nodes follow each other on a path along links, so some link leads there.
      have hpair : [i, j].IsChain (last.keeper.toTree 0).Linked := List.IsChain.infix hchain hinfix
      obtain ⟨e, he, rfl⟩ := List.isChain_pair.1 hpair
      rcases hg.quality_cases he with ⟨-, hn⟩ | ⟨hq, -⟩
      · exact absurd hf hn
      · exact ⟨i, e, he, hinfix, hq⟩
  obtain ⟨q, hq⟩ : ∃ q, (last.keeper.toTree 0).pathQuality? path = some q := by
    refine Option.ne_none_iff_exists'.1 fun hnone => ?_
    rcases hquality.eq_none_iff.1 hnone with hn | ⟨-, hn⟩
    · exact hn hchain
    · exact hunder hn
  refine ⟨q, hq, (hquality.eq_over_iff q hq).trans hover, (hquality.eq_exact_iff q hq).trans ?_⟩
  rw [hover, and_iff_left hunder]

/-- The quality of a path is that of its weakest link, and no link of a traced tree is an
    under-approximation. -/
theorem qualified_of_singlyLinked (t : Tree) :
    (t.SinglyLinked → ∀ path, t.Qualified path) ∧
    ∀ (tracer : Tracer) (fuel : Nat) (w : Wiring) (query : Query) (d : Designator)
      (root : FunctionId), tracer.tree? fuel w query d root = some t → ∀ path ∈ t.leafPaths,
      ∃ q, t.pathQuality? path = some q ∧ (q = .overApprox ↔ t.FollowsMatch w path) ∧
        (q = .exact ↔ ¬t.FollowsMatch w path) :=
  ⟨fun ht => ht.qualified, fun _ _ _ _ _ _ h _ => exists_quality_of_leafPath h⟩

/-- A path along both kinds of approximation, and one along one of them. -/
def mixed : Tree where
  root := 0
  nodes := #[
    ⟨.and, [⟨1, .overApprox⟩]⟩,
    ⟨.or, [⟨2, .underApprox⟩, ⟨3, .exact⟩]⟩,
    ⟨.object ⟨.compose [.input 0], 0⟩, []⟩,
    ⟨.object ⟨.compose [.input 1], 0⟩, []⟩]

theorem singlyLinked_mixed : mixed.SinglyLinked := fun id => by
  have hall : ∀ id < mixed.size, ((mixed.children id).map Edge.target).Nodup := by decide
  rcases Nat.lt_or_ge id mixed.size with hlt | hge
  · exact hall id hlt
  · rw [children_of_size_le hge]
    exact List.nodup_nil

/-- A quantifier over what was found in two texts, in the second of which nothing was. -/
def searches : Wiring where
  feeder input := if input = ⟨1, 0⟩ then some ⟨0, 0⟩ else none
  witness id :=
    if id = 0 then some (.applied [.found ⟨1, 2, 3⟩, .linkAll 1]) else some (.quantified 2 [0, 1])

/-- The text in which nothing was found is linked exactly. -/
theorem qualified_searches : mixed.pathQuality? [0, 1, 2] = none ∧
    mixed.pathQuality? [0, 1, 3] = some .overApprox ∧ (∀ path, mixed.Qualified path) ∧
    ∃ t, Tracer.tree? {} 12 searches .provenance (.compose [.output 0]) 1 = some t ∧
      t.leafPaths.map t.pathQuality? = [some .overApprox, some .exact] ∧
      ∀ path ∈ t.leafPaths, ∃ q, t.pathQuality? path = some q ∧
        (q = .overApprox ↔ t.FollowsMatch searches path) ∧
        (q = .exact ↔ ¬t.FollowsMatch searches path) := by
  have h : (Tracer.tree? {} 12 searches .provenance (.compose [.output 0]) 1).map
      (fun t => t.leafPaths.map t.pathQuality?) = some [some .overApprox, some .exact] := by
    decide +kernel
  obtain ⟨t, ht, hqualities⟩ := Option.map_eq_some_iff.1 h
  exact ⟨by decide, by decide, (qualified_of_singlyLinked mixed).1 singlyLinked_mixed,
    t, ht, hqualities, (qualified_of_singlyLinked t).2 {} 12 searches .provenance _ 1 ht⟩

end Tree

end Lineage
