import Lineage.Witness
import Lineage.Proofs.Designator.Chain
import Lineage.Proofs.Outline.Graft

/-!
# Answers

No answer of a witness fails (`tryAnswer_eq`), and every one attaches an outline
(`answer_eq`), which depends on the query and the part asked about, and not on the
keeper. For a function applied to each element of a list it is the outline of the
element, moved there: grafts of grafts rename parts and do nothing else.

The parts of an outline are parts of input pins of the function, and of no other
pins (`head_of_mem_outline`).
-/

namespace Lineage

/-- All inputs of a function together. -/
def Outline.allInputs (arity : Nat) : Outline :=
  .junction .and ((List.range arity).map fun i => Designator.compose [.input i])

namespace Witness

mutual

/-- What the witness attaches to explain the part `d` of an output. -/
def outline (query : Query) (d : Designator) : Witness → Outline
  | linkAll arity => .allInputs arity
  | forked => .link .exact (Designator.nest [.input 0] d)
  | quantified length positions =>
    if query = .causality ∧ positions ≠ [] then .junction .or (positions.map (elementPart · d))
    else .junction .and ((List.range length).map (elementPart · d))
  | found place =>
    match place.inputRange? d.head with
    | some r => .link .overApprox (Designator.nest [.input 0, .range r] d.rest)
    | none => .allInputs 1
  | applied elements =>
    match d.head with
    | .identity => .link .exact (Designator.compose [.input 0])
    | .element n =>
      match outlineAt query d.rest elements n with
      | some o => o.rename (moveToElement n)
      | none => .allInputs 1
    | _ => .allInputs 1

/-- What the witness at the given place attaches. -/
def outlineAt (query : Query) (d : Designator) : List Witness → Nat → Option Outline
  | [], _ => none
  | w :: _, 0 => some (outline query d w)
  | _ :: ws, n + 1 => outlineAt query d ws n

end

theorem outlineAt_eq (query : Query) (d : Designator) (ws : List Witness) (n : Nat) :
    outlineAt query d ws n = ws[n]?.map (outline query d) := by
  induction ws generalizing n with
  | nil => rw [outlineAt]; rfl
  | cons w ws ih =>
    cases n with
    | zero => rw [outlineAt]; rfl
    | succ n => rw [outlineAt, ih]; rfl

/-! ### Parts of inputs -/

variable {query : Query} {d d' : Designator} {w : Witness}

theorem head_elementPart {n : Nat} : (elementPart n d).head = .input 0 :=
  Designator.head_nest_cons Part.input_ne_identity

/-- What is moved to an element is a part of the list. -/
theorem head_moveToElement {n : Nat} : (moveToElement n d).head = .input 0 := by
  rw [moveToElement]
  split <;> exact head_elementPart

theorem mem_allInputs_iff {arity : Nat} :
    d' ∈ (Outline.allInputs arity).parts ↔ ∃ i < arity, Designator.compose [.input i] = d' := by
  rw [Outline.allInputs, Outline.parts, List.mem_map]
  exact exists_congr fun i => and_congr_left' List.mem_range

/-- What a quantifier is explained by: a part of an element that decided it, or of
    any element. -/
theorem mem_outline_quantified {length : Nat} {positions : List Nat}
    (h : d' ∈ ((quantified length positions).outline query d).parts) :
    ∃ n, (n < length ∨ n ∈ positions) ∧ d' = elementPart n d := by
  rw [outline] at h
  split at h
  · obtain ⟨n, hn, rfl⟩ := List.mem_map.1 h
    exact ⟨n, .inr hn, rfl⟩
  · obtain ⟨n, hn, rfl⟩ := List.mem_map.1 h
    exact ⟨n, .inl (List.mem_range.1 hn), rfl⟩

/-- What a match is explained by: a range of the input, if one can be told. -/
theorem mem_outline_found {place : Found}
    (h : d' ∈ ((found place).outline query d).parts) :
    (∃ r, place.inputRange? d.head = some r ∧
      d' = Designator.nest [.input 0, .range r] d.rest) ∨ d' ∈ (Outline.allInputs 1).parts := by
  rw [outline] at h
  split at h
  · next r hr => exact .inl ⟨r, hr, List.mem_singleton.1 h⟩
  · exact .inr h

/-- What a list is explained by that a function was applied to: what explains the
    element, moved there, if a part of an element is asked about. -/
theorem mem_outline_applied {elements : List Witness}
    (h : d' ∈ ((applied elements).outline query d).parts) :
    (∃ n w e, d.head = .element n ∧ w ∈ elements ∧ e ∈ (w.outline query d.rest).parts ∧
      d' = moveToElement n e) ∨ d' ∈ (Outline.allInputs 1).parts := by
  rw [outline] at h
  split at h
  · exact .inr h
  · next n hn =>
    rw [outlineAt_eq] at h
    cases hw : elements[n]? with
    | none =>
      rw [hw] at h
      exact .inr h
    | some w =>
      rw [hw, Option.map_some] at h
      dsimp only at h
      rw [Outline.parts_rename] at h
      obtain ⟨e, he, rfl⟩ := List.mem_map.1 h
      exact .inl ⟨n, w, e, hn, List.mem_of_getElem? hw, he, rfl⟩
  · exact .inr h

theorem head_of_mem_allInputs {arity : Nat} (h : d' ∈ (Outline.allInputs arity).parts) :
    ∃ i < arity, d'.head = .input i := by
  obtain ⟨i, hi, rfl⟩ := mem_allInputs_iff.1 h
  exact ⟨i, hi, Designator.head_compose_cons Part.input_ne_identity⟩

/-- The parts that explain an output are parts of inputs of the function. -/
theorem head_of_mem_outline (h : d' ∈ (w.outline query d).parts) :
    ∃ i < w.inArity, d'.head = .input i := by
  cases w with
  | linkAll arity =>
    rw [outline] at h
    exact head_of_mem_allInputs h
  | forked =>
    rw [outline] at h
    obtain rfl := List.mem_singleton.1 h
    exact ⟨0, Nat.one_pos, Designator.head_nest_cons Part.input_ne_identity⟩
  | quantified length positions =>
    obtain ⟨n, -, rfl⟩ := mem_outline_quantified h
    exact ⟨0, Nat.one_pos, head_elementPart⟩
  | found place =>
    rcases mem_outline_found h with ⟨r, -, rfl⟩ | h
    · exact ⟨0, Nat.one_pos, Designator.head_nest_cons Part.input_ne_identity⟩
    · exact head_of_mem_allInputs h
  | applied elements =>
    rcases mem_outline_applied h with ⟨n, w, e, -, -, -, rfl⟩ | h
    · exact ⟨0, Nat.one_pos, head_moveToElement⟩
    · exact head_of_mem_allInputs h

/-- No part of an outline is the output that it explains. -/
theorem ne_output_of_mem_outline {key : ObjectKey} {subject : FunctionId} {o : Nat}
    (hkey : key.designator.head = .output o) (h : d' ∈ (w.outline query d).parts) :
    ⟨d', subject⟩ ≠ key := fun he => by
  obtain ⟨i, -, hi⟩ := head_of_mem_outline h
  rw [← he, hi] at hkey
  exact absurd hkey nofun

theorem rename_ne_or_nil {f : Designator → Designator} {o : Outline}
    (h : o ≠ .junction .or []) : o.rename f ≠ .junction .or [] := fun he => by
  cases o with
  | link quality d => exact absurd he nofun
  | junction j ds =>
    cases ds with
    | nil =>
      obtain ⟨rfl, -⟩ := Outline.junction.inj he
      exact h rfl
    | cons d ds => exact absurd he nofun

mutual

/-- An OR node joins at least one part. -/
theorem outline_ne_or_nil (d : Designator) :
    ∀ w : Witness, w.outline query d ≠ .junction .or []
  | linkAll arity => by
    rw [outline]
    exact nofun
  | forked => by
    rw [outline]
    exact nofun
  | quantified length positions => by
    rw [outline]
    split
    · next h => simp [h.2]
    · simp
  | found place => by
    rw [outline]
    cases place.inputRange? d.head <;> exact nofun
  | applied elements => by
    rw [outline]
    cases d.head with
    | element n =>
      dsimp only
      cases ho : outlineAt query d.rest elements n with
      | none => exact nofun
      | some o => exact rename_ne_or_nil (outlineAt_ne_or_nil d.rest elements n o ho)
    | _ => exact nofun

theorem outlineAt_ne_or_nil (d : Designator) : ∀ (ws : List Witness) (n : Nat) (o : Outline),
    outlineAt query d ws n = some o → o ≠ .junction .or []
  | [], _, _, ho => by
    rw [outlineAt] at ho
    exact absurd ho nofun
  | w :: _, 0, _, ho => by
    rw [outlineAt] at ho
    exact Option.some.inj ho ▸ outline_ne_or_nil d w
  | _ :: ws, n + 1, o, ho => by
    rw [outlineAt] at ho
    exact outlineAt_ne_or_nil d ws n o ho

end

/-! ### Answers -/

variable {subject : FunctionId}

mutual

/-- An answer does not fail, and attaches the outline. -/
theorem tryAnswer_eq_attachTo {root : NodeId} {k : Keeper} (h : root < k.size) (d : Designator) :
    ∀ w : Witness, tryAnswer query d subject root k w =
      .ok ((w.outline query d).attachTo subject root k)
  | linkAll arity => by
    rw [tryAnswer, outline]
    rfl
  | forked => by
    rw [tryAnswer, outline]
    rfl
  | quantified length positions => by
    rw [tryAnswer, outline]
    split <;> rfl
  | found place => by
    rw [tryAnswer, outline, Found.inputRange?]
    cases place.inputRange d.head with
    | error e => rfl
    | ok r? => cases r? <;> rfl
  | applied elements => by
    rw [tryAnswer, outline]
    cases d.head with
    | element n =>
      dsimp only
      rw [tryAnswerAt_eq d.rest elements n, outlineAt_eq]
      cases elements[n]? with
      | none => rfl
      | some w =>
        refine congrArg Except.ok (Keeper.graft_attachTo (fun _ hd => ?_) h)
        exact ne_output_of_mem_outline (Designator.head_compose_cons Part.output_ne_identity) hd
    | _ => rfl

/-- The answer at an element attaches its outline to a root alone. -/
theorem tryAnswerAt_eq (d : Designator) : ∀ (ws : List Witness) (n : Nat),
    tryAnswerAt query d subject ws n = .ok ((outlineAt query d ws n).map fun o =>
      o.attachTo subject 0 (Keeper.empty.keep ⟨Designator.compose [.output 0], subject⟩).1)
  | [], _ => by
    rw [tryAnswerAt, outlineAt]
    rfl
  | w :: _, 0 => by
    have h : 0 < (Keeper.empty.keep ⟨Designator.compose [.output 0], subject⟩).1.size :=
      Keeper.size_keep_empty ▸ Nat.one_pos
    have hroot : (Keeper.empty.objectNode subject (Designator.compose [.output 0])).2 = 0 :=
      Keeper.snd_keep_empty
    rw [tryAnswerAt, outlineAt, Option.map_some]
    dsimp only
    rw [hroot, Keeper.objectNode, tryAnswer_eq_attachTo h d w]
    rfl
  | _ :: ws, n + 1 => by
    rw [tryAnswerAt, outlineAt, tryAnswerAt_eq d ws n]

end

variable {root : NodeId} {k : Keeper}

/-- Nothing prevents an answer. -/
theorem tryAnswer_eq (d : Designator) (root : NodeId) (k : Keeper) (w : Witness) :
    tryAnswer query d subject root k w = .ok (answer query d subject root k w) := by
  have hok : ∃ result, tryAnswer query d subject root k w = .ok result := by
    cases w with
    | linkAll | forked =>
      rw [tryAnswer]
      exact ⟨_, rfl⟩
    | quantified =>
      rw [tryAnswer]
      split <;> exact ⟨_, rfl⟩
    | found =>
      rw [tryAnswer]
      split <;> exact ⟨_, rfl⟩
    | applied elements =>
      rw [tryAnswer]
      split
      · exact ⟨_, rfl⟩
      · next n _ =>
        rw [tryAnswerAt_eq]
        cases outlineAt query d.rest elements n <;> exact ⟨_, rfl⟩
      · exact ⟨_, rfl⟩
  obtain ⟨result, hresult⟩ := hok
  rw [answer, hresult]
  rfl

theorem answer_eq (h : root < k.size) (d : Designator) (w : Witness) :
    answer query d subject root k w = (w.outline query d).attachTo subject root k :=
  Except.ok.inj ((tryAnswer_eq d root k w).symm.trans (tryAnswer_eq_attachTo h d w))

theorem answer_found {place : Found} : answer query d subject root k (.found place) =
    match place.inputRange? d.head with
    | some r =>
      Keeper.attach subject root .overApprox [Designator.nest [.input 0, .range r] d.rest] k
    | none => k.linkAllInputs subject 1 root := by
  rw [answer, tryAnswer, Found.inputRange?]
  cases place.inputRange d.head with
  | error e => rfl
  | ok r? => cases r? <;> rfl

/-- A question about an element is put to its witness alone. -/
theorem answer_applied_congr {ws ws' : List Witness} {n : Nat} (hn : ws'[n]? = ws[n]?)
    (query : Query) (r : Designator) (subject : FunctionId) (root : NodeId) (k : Keeper) :
    answer query (Designator.nest [.element n] r) subject root k (.applied ws') =
      answer query (Designator.nest [.element n] r) subject root k (.applied ws) := by
  rw [answer, answer, tryAnswer, tryAnswer, Designator.head_nest_cons Part.element_ne_identity]
  dsimp only
  rw [tryAnswerAt_eq, tryAnswerAt_eq, outlineAt_eq, outlineAt_eq, hn]

end Witness

end Lineage
