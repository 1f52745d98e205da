import Lineage.Proofs.Keeper.Joined
import Lineage.Proofs.Outline.Contract
import Mathlib.Data.List.Induction

/-!
# Quantifiers over lists

A quantifier goes over a list with a running value, and notes the positions of the
elements that go against the value over no elements. One such element decides the
value, and without any the value is that over no elements (`Tallied`).

So what explains the value explains it (`Decided`): an element that goes against the
start forces the value on every list that has it in its place, and, where there is
none, each element is needed, as another in its place would change the value. The
answer to a question of causality offers the former, any of them, and all elements
together otherwise (`exists_joinedBelow`).
-/

namespace Lineage.Quantifier

variable {q : Quantifier} {list list' : List Value} {t : Tally} {u v : Value} {p : Nat}

/-- What the quantifier says of a list: that each element is true, or that some element is. What
    is no truth value is not true. -/
def Holds : Quantifier → List Value → Prop
  | forAll, list => ∀ v ∈ list, v = .bool true
  | forSome, list => ∃ v ∈ list, v = .bool true

/-- The element at the position goes against the value over no elements. -/
def Offends (q : Quantifier) (list : List Value) (p : Nat) : Prop :=
  ∃ v, list[p]? = some v ∧ v.truth ≠ q.start

/-! ### The fold -/

theorem update_eq (q : Quantifier) (b element : Bool) :
    q.update b element = if element = q.start then b else !q.start := by
  cases q <;> cases b <;> cases element <;> rfl

theorem fold_append (q : Quantifier) (list : List Value) (v : Value) :
    q.fold (list ++ [v]) = q.tally (q.fold list) v list.length := by
  simp [fold, List.zipIdx_append]

theorem offends_append : q.Offends (list ++ [v]) p ↔
    q.Offends list p ∨ p = list.length ∧ v.truth ≠ q.start := by
  rcases Nat.lt_trichotomy p list.length with h | rfl | h
  · simp [Offends, List.getElem?_append_left h, Nat.ne_of_lt h]
  · simp [Offends]
  · have hlength : (list ++ [v]).length ≤ p := by rwa [List.length_append]
    simp [Offends, List.getElem?_eq_none (Nat.le_of_lt h), List.getElem?_eq_none hlength,
      Nat.ne_of_gt h]

/-- What is known of the elements of a list when all have been seen. -/
structure Tallied (q : Quantifier) (list : List Value) (t : Tally) : Prop where
  value : t.value = if t.positions.toList = [] then q.start else !q.start
  ascending : t.positions.toList.Pairwise (· < ·)
  mem_positions : ∀ p, p ∈ t.positions.toList ↔ q.Offends list p

theorem Tallied.tally (h : q.Tallied list t) (v : Value) :
    q.Tallied (list ++ [v]) (q.tally t v list.length) := by
  by_cases hv : v.truth = q.start
  · have ht : q.tally t v list.length = t := by
      rw [Quantifier.tally, update_eq, if_pos hv, if_pos hv]
    rw [ht]
    refine ⟨h.value, h.ascending, fun p => (h.mem_positions p).trans ?_⟩
    rw [offends_append, or_iff_left fun h => h.2 hv]
  · have ht : q.tally t v list.length = ⟨!q.start, t.positions.push list.length⟩ := by
      rw [Quantifier.tally, update_eq, if_neg hv, if_neg hv]
    rw [ht]
    constructor
    case value => simp
    case ascending =>
      rw [Array.toList_push, List.pairwise_append]
      refine ⟨h.ascending, List.pairwise_singleton _ _, fun p hp n hn => ?_⟩
      obtain ⟨u, hu, -⟩ := (h.mem_positions p).1 hp
      rw [List.mem_singleton.1 hn]
      exact (List.getElem?_eq_some_iff.1 hu).1
    case mem_positions =>
      intro p
      rw [Array.toList_push, List.mem_append, List.mem_singleton, h.mem_positions, offends_append,
        and_iff_left hv]

theorem tallied_fold (q : Quantifier) (list : List Value) : q.Tallied list (q.fold list) := by
  induction list using List.reverseRecOn with
  | nil => exact ⟨rfl, .nil, fun p => by simp [fold, Offends]⟩
  | append_singleton list v ih =>
    rw [fold_append]
    exact ih.tally v

/-! ### What decides the value -/

theorem value_eq_start_iff : q.value list = q.start ↔ q.positions list = [] := by
  rw [value, (q.tallied_fold list).value]
  split
  · next h => exact iff_of_true rfl h
  · next h => exact iff_of_false (by simp) h

theorem mem_positions_iff : p ∈ q.positions list ↔ q.Offends list p :=
  (q.tallied_fold list).mem_positions p

/-- One element that goes against the start decides the value. -/
theorem value_of_offends (h : q.Offends list p) : q.value list = !q.start := by
  rw [value, (q.tallied_fold list).value, if_neg]
  exact List.ne_nil_of_mem (mem_positions_iff.2 h)

theorem Offends.congr (h : q.Offends list p)
    (hp : list'[p]?.map Value.truth = list[p]?.map Value.truth) : q.Offends list' p := by
  obtain ⟨v, hv, hne⟩ := h
  rw [hv, Option.map_some, Option.map_eq_some_iff] at hp
  obtain ⟨u, hu, htruth⟩ := hp
  exact ⟨u, hu, htruth ▸ hne⟩

theorem value_eq_start_iff_forall : q.value list = q.start ↔ ∀ v ∈ list, v.truth = q.start := by
  rw [value_eq_start_iff, List.eq_nil_iff_forall_not_mem]
  constructor
  · intro h v hv
    obtain ⟨p, hp⟩ := List.mem_iff_getElem?.1 hv
    by_contra hne
    exact h p (mem_positions_iff.2 ⟨v, hp, hne⟩)
  · intro h p hp
    obtain ⟨v, hv, hne⟩ := mem_positions_iff.1 hp
    exact hne (h v (List.mem_of_getElem? hv))

theorem truth_eq_true_iff : v.truth = true ↔ v = .bool true := by
  cases v <;> simp [Value.truth, Value.asBool?]

/-- The value is whether the statement holds. -/
theorem value_eq_true_iff : q.value list = true ↔ q.Holds list := by
  cases q with
  | forAll =>
    have h : forAll.value list = true ↔ ∀ v ∈ list, v.truth = true := value_eq_start_iff_forall
    simp only [h, truth_eq_true_iff, Holds]
  | forSome =>
    have h : forSome.value list = false ↔ ∀ v ∈ list, v.truth = false := value_eq_start_iff_forall
    simp only [← Bool.not_eq_false (forSome.value list), h, not_forall, Bool.not_eq_false,
      truth_eq_true_iff, exists_prop, Holds]

/-- What a value over a list comes from. -/
structure Decided (q : Quantifier) (list : List Value) (value : Bool) (positions : List Nat) :
    Prop where
  value_iff : value = true ↔ q.Holds list
  ascending : positions.Pairwise (· < ·)
  mem_positions : ∀ p, p ∈ positions ↔ q.Offends list p
  eq_start_iff : value = q.start ↔ positions = []
  /-- An element at one of the positions forces the value, whatever the other elements are. -/
  forced : ∀ p ∈ positions, ∀ list', list'[p]?.map Value.truth = list[p]?.map Value.truth →
    q.value list' = value
  /-- Without positions, no element can be replaced by one of the other truth. -/
  flipped : positions = [] → ∀ p u v, list[p]? = some u → v.truth = !u.truth →
    q.value (list.set p v) = !value

theorem decided (q : Quantifier) (list : List Value) :
    q.Decided list (q.value list) (q.positions list) where
  value_iff := value_eq_true_iff
  ascending := (q.tallied_fold list).ascending
  mem_positions _ := mem_positions_iff
  eq_start_iff := value_eq_start_iff
  forced p hp list' hlist' := by
    have h := mem_positions_iff.1 hp
    rw [value_of_offends h, value_of_offends (h.congr hlist')]
  flipped hnil p u v hu hv := by
    have hstart := value_eq_start_iff.2 hnil
    have htruth := value_eq_start_iff_forall.1 hstart u (List.mem_of_getElem? hu)
    have hset : (list.set p v)[p]? = some v :=
      List.getElem?_set_self (List.getElem?_eq_some_iff.1 hu).1
    rw [hstart, value_of_offends ⟨v, hset, by simp [hv, htruth]⟩]

/-! ### Answers -/

theorem elementPart_injective (d : Designator) :
    Function.Injective fun p => Witness.elementPart p d := fun p p' h => by
  have hparts := congrArg Designator.parts h
  simpa [Witness.elementPart] using hparts

/-- A quantifier over a list says what holds of it, for what decides it, and is explained by that:
    any of the elements that go against the start, if causes are asked for and there are such, and
    all elements together otherwise. -/
theorem exists_joinedBelow (q : Quantifier) (list : List Value) (query : Query) (d : Designator)
    (subject : FunctionId) {root : NodeId} {k : Keeper} (h : root < k.size) :
    (Function.quantifier q).evaluate [.list list] =
        .ok ⟨[.bool (q.value list)], .quantified list.length (q.positions list)⟩ ∧
      q.Decided list (q.value list) (q.positions list) ∧
      ∃ k' leaves, Witness.tryAnswer query d subject root k
          (.quantified list.length (q.positions list)) = .ok (k', leaves) ∧
        ((query = .causality ∧ q.positions list ≠ [] ∧ k.JoinedBelow k' subject root .or
            ((q.positions list).map fun p => Designator.nest [.input 0, .element p] d) leaves) ∨
          ((query = .causality → q.positions list = []) ∧ k.JoinedBelow k' subject root .and
            ((List.range list.length).map fun p => Designator.nest [.input 0, .element p] d)
            leaves)) := by
  refine ⟨rfl, q.decided list, ?_⟩
  by_cases hcause : query = .causality ∧ q.positions list ≠ []
  · have hnodup : (q.positions list).Nodup := (q.decided list).ascending.imp Nat.ne_of_lt
    refine ⟨_, _, by rw [Witness.tryAnswer, if_pos hcause], .inl ⟨hcause.1, hcause.2, ?_⟩⟩
    exact Keeper.joinedBelow_attachBelow h (hnodup.map (elementPart_injective d))
  · refine ⟨_, _, by rw [Witness.tryAnswer, if_neg hcause],
      .inr ⟨fun hq => not_not.1 fun hne => hcause ⟨hq, hne⟩, ?_⟩⟩
    exact Keeper.joinedBelow_attachBelow h (List.nodup_range.map (elementPart_injective d))

/-- Of three elements the first is no truth value and the last is false: either of them explains
    that not all are true. A part of the first has a node already, which leads back to the root. -/
theorem joinedBelow_backlinked : 0 < Witness.backlinked.size ∧
    forAll.Decided [.str "true", .bool true, .bool false] false [0, 2] ∧
    ∃ k' leaves, Witness.tryAnswer .causality (.compose [.element 1]) 7 0 Witness.backlinked
        (.quantified 3 [0, 2]) = .ok (k', leaves) ∧
      Witness.backlinked.JoinedBelow k' 7 0 .or [.compose [.input 0, .element 0, .element 1],
        .compose [.input 0, .element 2, .element 1]] leaves := by
  have hsize : 0 < Witness.backlinked.size := by decide +kernel
  obtain ⟨-, hdecided, k', leaves, hanswer, hjoined⟩ := exists_joinedBelow .forAll
    [.str "true", .bool true, .bool false] .causality (.compose [.element 1]) 7 hsize
  rcases hjoined with ⟨-, -, hjoined⟩ | ⟨hnil, -⟩
  · exact ⟨hsize, hdecided, k', leaves, hanswer, hjoined⟩
  · exact absurd (hnil rfl) (by decide)

end Lineage.Quantifier
