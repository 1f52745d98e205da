import Lineage.Proofs.Function.Elements
import Lineage.Proofs.Keeper.Renamed

/-!
# Answers about elements

What explains a part of an element of a list, under a function applied to each, is
what explains that part of the output of the template, with the parts of the
template's input moved to the element: the same nodes with the same links, under
other names (`Witness.answersAlike_applied`). No two parts are moved to the same
(`Moved.biUnique`). This is so however deep templates are nested, as the answer of
a template is made up of parts of its only input (`head_of_mem_outline`), and a
graft draws the outline of what it copies (`answer_eq`).
-/

namespace Lineage

variable {query : Query} {d r : Designator} {subject : FunctionId} {root root' : ObjectKey}
  {w : Witness} {ws : List Witness} {n : Nat}

/-! ### Outlines -/

/-- An outline is attached by the same nodes under other names. -/
theorem Keeper.Renamed.attachTo {r : NodeKind → NodeKind → Prop} {k k' : Keeper} {o : Outline}
    {f : Designator → Designator} (hr : Relator.BiUnique r) (h : Renamed r k k') (root : NodeId)
    (hjunction : ∀ j : Junction, r j.kind j.kind)
    (hparts : ∀ d ∈ o.parts, r (.object ⟨d, subject⟩) (.object ⟨f d, subject⟩)) :
    Renamed r (o.attachTo subject root k).1 ((o.rename f).attachTo subject root k').1 ∧
      ((o.rename f).attachTo subject root k').2 = (o.attachTo subject root k).2 := by
  have hds : List.Forall₂ (fun d d' => r (.object ⟨d, subject⟩) (.object ⟨d', subject⟩)) o.parts
      (o.parts.map f) :=
    List.forall₂_map_right_iff.2 (List.forall₂_same.2 hparts)
  cases o with
  | link quality d => exact h.attach hr hds
  | junction j ds => exact h.attachBelow hr (hjunction j) hds

namespace Witness

/-- A witness of one input explains by parts of that input. -/
theorem exists_nest_of_mem_outline (hw : w.inArity = 1) (h : d ∈ (w.outline query r).parts) :
    ∃ x, d = Designator.nest [.input 0] x := by
  obtain ⟨i, hi, hhead⟩ := head_of_mem_outline h
  obtain rfl : i = 0 := by omega
  refine ⟨d.rest, Designator.eq_of_parts ?_⟩
  rw [Designator.parts_nest, Designator.parts_eq_of_head hhead Part.input_ne_identity]
  rfl

theorem moveToElement_nest {x : Designator} :
    moveToElement n (Designator.nest [.input 0] x) = Designator.nest [.input 0, .element n] x := by
  rw [moveToElement, Designator.head_nest_cons Part.input_ne_identity]
  dsimp only
  rw [Designator.rest_nest_cons Part.input_ne_identity, Designator.nest_nil, elementPart]

theorem outline_applied (h : ws[n]? = some w) :
    (applied ws).outline query (Designator.nest [.element n] r) =
      (w.outline query r).rename (moveToElement n) := by
  rw [outline, Designator.head_nest_cons Part.element_ne_identity]
  dsimp only
  rw [Designator.rest_nest_cons Part.element_ne_identity, Designator.nest_nil, outlineAt_eq, h]
  rfl

end Witness

/-! ### Names -/

/-- What is below `ps` goes by its name below `ps'`; the root has a name of its own, and what joins
    parts goes on to join them. -/
inductive Moved (ps ps' : List Part) (subject : FunctionId) (root root' : ObjectKey) :
    NodeKind → NodeKind → Prop where
  | root : Moved ps ps' subject root root' (.object root) (.object root')
  | part (x : Designator) : Moved ps ps' subject root root'
    (.object ⟨Designator.nest ps x, subject⟩) (.object ⟨Designator.nest ps' x, subject⟩)
  | and : Moved ps ps' subject root root' .and .and
  | or : Moved ps ps' subject root root' .or .or

namespace Moved

variable {ps ps' : List Part} {a b : NodeKind}

theorem junction (j : Junction) : Moved ps ps' subject root root' j.kind j.kind := by
  cases j with
  | and => exact .and
  | or => exact .or

/-- To move parts back is to move them from `ps'` to `ps`. -/
theorem flip (h : Moved ps ps' subject root root' a b) : Moved ps' ps subject root' root b a := by
  cases h with
  | root => exact .root
  | part d => exact .part d
  | and => exact .and
  | or => exact .or

/-- No two names become the same, if the root does not take that of a part. -/
theorem leftUnique (hroot' : ∀ d, root' ≠ ⟨Designator.nest ps' d, subject⟩) :
    Relator.LeftUnique (Moved ps ps' subject root root') := by
  intro a b c ha hb
  cases ha with
  | root =>
    generalize hc : NodeKind.object root' = c at hb
    cases hb with
    | root => rfl
    | part d => exact absurd (NodeKind.object.inj hc) (hroot' d)
    | and | or => exact absurd hc nofun
  | part d =>
    generalize hc : NodeKind.object ⟨Designator.nest ps' d, subject⟩ = c at hb
    cases hb with
    | root => exact absurd (NodeKind.object.inj hc).symm (hroot' d)
    | part d' =>
      obtain ⟨hd, -⟩ := ObjectKey.mk.inj (NodeKind.object.inj hc)
      rw [Designator.nest_inj.1 hd]
    | and | or => exact absurd hc nofun
  | and | or =>
    cases hb
    rfl

theorem biUnique (hroot : ∀ d, root ≠ ⟨Designator.nest ps d, subject⟩)
    (hroot' : ∀ d, root' ≠ ⟨Designator.nest ps' d, subject⟩) :
    Relator.BiUnique (Moved ps ps' subject root root') :=
  ⟨leftUnique hroot', fun _ _ _ hb hc => leftUnique hroot hb.flip hc.flip⟩

end Moved

/-! ### Answers -/

/-- Two answers are one under two kinds of names: their nodes correspond with their links, in order,
    and so do the nodes given. No two nodes have one name, in either, nor are two names taken for
    one another. -/
structure AnswersAlike (r : NodeKind → NodeKind → Prop) (a a' : Keeper × List NodeId) : Prop where
  renamed : Keeper.Renamed r a.1 a'.1
  leaves : a'.2 = a.2
  biUnique : Relator.BiUnique r
  unique : a.1.Unique
  unique' : a'.1.Unique

namespace Witness

/-- The answer of a witness on a keeper that holds but the root. -/
def answerAlone (query : Query) (d : Designator) (subject : FunctionId) (root : ObjectKey)
    (w : Witness) : Keeper × List NodeId :=
  w.answer query d subject (Keeper.empty.keep root).2 (Keeper.empty.keep root).1

variable {o o' : Nat}

theorem answerAlone_eq : w.answerAlone query d subject root =
    (w.outline query d).attachTo subject 0 (Keeper.empty.keep root).1 := by
  rw [answerAlone, Keeper.snd_keep_empty, answer_eq (Keeper.size_keep_empty ▸ Nat.one_pos)]

theorem unique_answerAlone : (w.answerAlone query d subject root).1.Unique := by
  rw [answerAlone_eq]
  exact (Keeper.drawn_attachTo subject (Keeper.size_keep_empty ▸ Nat.one_pos)).unique
    Keeper.unique_empty.keep

/-- The name of an output is not that of a part of an input. -/
theorem ne_nest_of_head {ps : List Part} (h : root.designator.head = .output o) (d : Designator) :
    root ≠ ⟨Designator.nest (.input 0 :: ps) d, subject⟩ := fun he => by
  rw [he, Designator.head_nest_cons Part.input_ne_identity] at h
  exact absurd h nofun

/-- The answer of a witness for an element is the answer of the witness of the element, moved to
    it. -/
theorem answersAlike_applied (hw : w.inArity = 1) (hn : ws[n]? = some w)
    (hroot : root.designator.head = .output o) (hroot' : root'.designator.head = .output o') :
    AnswersAlike (Moved [.input 0] [.input 0, .element n] subject root root')
      (w.answerAlone query r subject root)
      ((applied ws).answerAlone query (Designator.nest [.element n] r) subject root') := by
  have hr : Relator.BiUnique (Moved [.input 0] [.input 0, .element n] subject root root') :=
    Moved.biUnique (ne_nest_of_head hroot) (ne_nest_of_head hroot')
  have hstart : Keeper.Renamed (Moved [.input 0] [.input 0, .element n] subject root root')
      (Keeper.empty.keep root).1 (Keeper.empty.keep root').1 := by
    rw [Keeper.keep_empty, Keeper.keep_empty]
    exact Keeper.Renamed.push ⟨fun _ => .none, fun _ => rfl⟩ .root
  have hparts : ∀ d ∈ (w.outline query r).parts,
      Moved [.input 0] [.input 0, .element n] subject root root' (.object ⟨d, subject⟩)
        (.object ⟨moveToElement n d, subject⟩) := by
    -- The template has one input, and its answer is made up of parts of it.
    intro d hd
    obtain ⟨x, rfl⟩ := exists_nest_of_mem_outline hw hd
    rw [moveToElement_nest]
    exact .part x
  obtain ⟨hrenamed, hleaves⟩ := hstart.attachTo hr 0 Moved.junction hparts
  refine ⟨?_, ?_, hr, unique_answerAlone, unique_answerAlone⟩
  · rw [answerAlone_eq, answerAlone_eq, outline_applied hn]
    exact hrenamed
  · rw [answerAlone_eq, answerAlone_eq, outline_applied hn]
    exact hleaves

end Witness

/-- What is answered about element `n` of a list is what the witness of the template for that
    element answers, with all parts `in0/x` of the input moved to `in0/#n/x`. -/
theorem Function.exists_answersAlike {template f : Function} {vs : List Value} {e : Evaluation}
    {n : Nat} (h : template.overElements = .ok f) (he : f.evaluate [.list vs] = .ok e)
    (hn : n < vs.length) : ∃ e', template.evaluate [vs[n]] = .ok e' ∧
      ∀ (query : Query) (r : Designator) (subject : FunctionId) (root root' : ObjectKey)
          (o o' : Nat), root.designator.head = .output o → root'.designator.head = .output o' →
        AnswersAlike (Moved [.input 0] [.input 0, .element n] subject root root')
          (e'.witness.answerAlone query r subject root)
          (e.witness.answerAlone query (Designator.nest [.element n] r) subject root') := by
  obtain ⟨hin, -, rfl⟩ := overElements_eq_ok_iff.1 h
  obtain ⟨es, hes, rfl⟩ := evaluate_applyToAll_eq_ok_iff.1 he
  have hrel := rel_getElem? hes n
  rw [List.getElem?_eq_getElem hn] at hrel
  generalize hen : es[n]? = en at hrel
  cases hrel with
  | @some _ e' he' =>
    refine ⟨e', he', fun query r subject root root' o o' hroot hroot' => ?_⟩
    have hw : (es.map Evaluation.witness)[n]? = some e'.witness := by
      rw [List.getElem?_map, hen]
      rfl
    exact Witness.answersAlike_applied ((inArity_witness he').trans hin) hw hroot hroot'

/-- Of a list of lists of lists, the first element of the first output was decided by the second
    truth value below it, `in0/#0/#0/#1`, and for the template by `in0/#0/#1`. -/
theorem Function.answersAlike_nested : ∃ e' a a',
    (applyToAll (quantifier .forAll)).evaluate [.list [.list [.bool true, .bool false]]] = .ok e' ∧
      e'.witness.answerAlone .causality (Designator.compose [.element 0]) 0
        ⟨Designator.compose [.output 0], 0⟩ = a ∧
      (Witness.applied [.applied [.quantified 2 [1]], .applied []]).answerAlone .causality
        (Designator.nest [.element 0] (Designator.compose [.element 0])) 0
        ⟨Designator.compose [.output 0], 0⟩ = a' ∧
      AnswersAlike (Moved [.input 0] [.input 0, .element 0] 0
        ⟨Designator.compose [.output 0], 0⟩ ⟨Designator.compose [.output 0], 0⟩) a a' ∧
      a.1.nodes = #[⟨.object ⟨Designator.compose [.output 0], 0⟩, [⟨1, .exact⟩]⟩,
        ⟨.or, [⟨2, .exact⟩]⟩,
        ⟨.object ⟨Designator.compose [.input 0, .element 0, .element 1], 0⟩, []⟩] ∧
      a'.1.nodes = #[⟨.object ⟨Designator.compose [.output 0], 0⟩, [⟨1, .exact⟩]⟩,
        ⟨.or, [⟨2, .exact⟩]⟩,
        ⟨.object ⟨Designator.compose [.input 0, .element 0, .element 0, .element 1], 0⟩, []⟩] := by
  have h : overElements (applyToAll (quantifier .forAll)) =
      .ok (applyToAll (applyToAll (quantifier .forAll))) := rfl
  have he : (applyToAll (applyToAll (quantifier .forAll))).evaluate
      [.list [.list [.list [.bool true, .bool false]], .list []]] =
      .ok ⟨[.list [.list [.bool false], .list []]],
        .applied [.applied [.quantified 2 [1]], .applied []]⟩ := rfl
  have hfirst : (applyToAll (quantifier .forAll)).evaluate
      [.list [.list [.bool true, .bool false]]] =
      .ok ⟨[.list [.bool false]], .applied [.quantified 2 [1]]⟩ := rfl
  obtain ⟨e', he', halike⟩ := exists_answersAlike h he (Nat.zero_lt_succ 1)
  obtain rfl := Except.ok.inj (hfirst.symm.trans he')
  exact ⟨_, _, _, he', rfl, rfl,
    halike .causality (Designator.compose [.element 0]) 0 _ _ 0 0 rfl rfl,
    by decide +kernel, by decide +kernel⟩

end Lineage
