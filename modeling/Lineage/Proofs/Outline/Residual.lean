import Lineage.Proofs.Designator.Within
import Lineage.Proofs.Outline.Room
import Mathlib.Order.Lattice

/-!
# What stays behind the pin

A trace goes from pin to pin, and what it is asked about behind the first of them
it carries along. Without quantifiers, little becomes of it on the way (`Stays`):

* steps that are no ranges stand where they stood, or are cut off;
* a range is moved, never downwards, and never beyond twice the length of the text
  that was searched;
* where the chain ends, a range may come to stand that was not there before.

All witnesses keep to this (`Unquantified.stays`), also those whose answers are
moved to elements of a list: the element asked about is a step of the chain, and
what is behind it is carried along in the same way.
-/

namespace Lineage

variable {d d' : Designator} {p : Part} {r : Range}

namespace Designator

/-- The ranges in the chain, head first. -/
def ranges (d : Designator) : List Range := d.parts.filterMap Part.range?

/-- The least start of a range, or 0 if none is less. -/
def leastStart (d : Designator) : Int :=
  (0 :: d.ranges.map Range.start).min (List.cons_ne_nil _ _)

/-- The greatest end of a range, or `b` if none is greater. -/
def greatestStop (b : Int) (d : Designator) : Int :=
  (b :: d.ranges.map Range.stop).max (List.cons_ne_nil _ _)

theorem mem_ranges : r ∈ d.ranges ↔ .range r ∈ d.parts := by
  rw [ranges, List.mem_filterMap]
  constructor
  · rintro ⟨p, hp, hr⟩
    cases p with
    | range r' => exact Option.some.inj hr ▸ hp
    | _ => exact absurd hr nofun
  · exact fun h => ⟨_, h, rfl⟩

theorem leastStart_le_zero (d : Designator) : d.leastStart ≤ 0 :=
  List.min_le_of_mem List.mem_cons_self

theorem leastStart_le (h : r ∈ d.ranges) : d.leastStart ≤ r.start :=
  List.min_le_of_mem (List.mem_cons_of_mem _ (List.mem_map_of_mem h))

theorem le_greatestStop (b : Int) (d : Designator) : b ≤ d.greatestStop b :=
  List.le_max_of_mem List.mem_cons_self

theorem stop_le_greatestStop (b : Int) (h : r ∈ d.ranges) : r.stop ≤ d.greatestStop b :=
  List.le_max_of_mem (List.mem_cons_of_mem _ (List.mem_map_of_mem h))

end Designator

/-- What the steps `origin` may become behind the pin: each step that is no range stands where it
    stood, no more than one step is added, and all ranges lie between `low` and `high`. -/
structure Stays (low high : Int) (origin ps : List Part) : Prop where
  length_le : ps.length ≤ origin.length + 1
  part : ∀ (i : Nat) (p : Part), ps[i]? = some p → p.isRange = false → origin[i]? = some p
  range : ∀ r, .range r ∈ ps → low ≤ r.start ∧ r.stop ≤ high

namespace Stays

variable {low high : Int} {origin ps : List Part}

theorem nil : Stays low high origin [] where
  length_le := Nat.zero_le _
  part _ _ h := absurd h nofun
  range _ h := absurd h List.not_mem_nil

/-- A range may come where the chain ends, or in place of another. -/
theorem range_cons (h : ps = [] ∨ ∃ r', Stays low high origin (.range r' :: ps))
    (hr : low ≤ r.start ∧ r.stop ≤ high) : Stays low high origin (.range r :: ps) := by
  obtain rfl | ⟨r', h⟩ := h
  · refine ⟨Nat.le_add_left 1 _, fun i p hp hrange => ?_, fun r' hr' => ?_⟩
    · cases i with
      | zero => exact absurd hrange (Option.some.inj hp ▸ nofun)
      | succ i => exact absurd hp nofun
    · obtain rfl := Part.range.inj (List.mem_singleton.1 hr')
      exact hr
  · refine ⟨h.length_le, fun i p hp hrange => ?_, fun r'' hr'' => ?_⟩
    · cases i with
      | zero => exact absurd hrange (Option.some.inj hp ▸ nofun)
      | succ i => exact h.part (i + 1) p hp hrange
    · rcases List.mem_cons.1 hr'' with he | hmem
      · exact Part.range.inj he ▸ hr
      · exact h.range r'' (List.mem_cons_of_mem _ hmem)

/-- A step that is no range stands before what stays behind it. -/
theorem cons (h : Stays low high origin ps) (hp : p.isRange = false) :
    Stays low high (p :: origin) (p :: ps) where
  length_le := Nat.succ_le_succ h.length_le
  part i q hq hrange := by
    cases i with
    | zero => exact hq
    | succ i => exact h.part i q hq hrange
  range r hr := by
    rcases List.mem_cons.1 hr with rfl | hr
    · exact absurd hp nofun
    · exact h.range r hr

theorem exists_tail (h : Stays low high origin (p :: ps)) (hp : p.isRange = false) :
    ∃ origin', origin = p :: origin' ∧ Stays low high origin' ps := by
  have hhead := h.part 0 p rfl hp
  cases origin with
  | nil => exact absurd hhead nofun
  | cons q origin =>
    obtain rfl := Option.some.inj hhead
    exact ⟨origin, rfl, Nat.le_of_succ_le_succ h.length_le, fun i => h.part (i + 1),
      fun r hr => h.range r (List.mem_cons_of_mem _ hr)⟩

end Stays

theorem stays_refl (b : Int) (d : Designator) :
    Stays d.leastStart (d.greatestStop b) d.parts d.parts where
  length_le := Nat.le_succ _
  part _ _ h _ := h
  range _ hr :=
    have hr := Designator.mem_ranges.2 hr
    ⟨Designator.leastStart_le hr, Designator.stop_le_greatestStop b hr⟩

/-- Numbers within a bound stay within it, if the limits of ranges are. -/
theorem Stays.within {low high : Int} {e : Designator} {b : Nat}
    (h : Stays low high e.parts d.parts) (he : e.Within b) (hlow : -(b : Int) ≤ low)
    (hhigh : high ≤ b) : d.Within b := fun p hp => by
  cases hrange : p.isRange with
  | true =>
    cases p with
    | range r => exact ⟨hlow.trans (h.range r hp).1, (h.range r hp).2.trans hhigh⟩
    | _ => exact absurd hrange nofun
  | false =>
    obtain ⟨i, hi⟩ := List.getElem?_of_mem hp
    exact he p (List.mem_of_getElem? (h.part i p hi hrange))

/-! ### Witnesses -/

namespace Witness

mutual

/-- The length of the longest text that the witness has recorded. -/
def longest : Witness → Nat
  | found place => place.length
  | applied elements => longestAmong elements
  | _ => 0

/-- The greatest of several such lengths. -/
def longestAmong : List Witness → Nat
  | [] => 0
  | w :: ws => max (longest w) (longestAmong ws)

end

theorem longest_le_longestAmong {w : Witness} {ws : List Witness} (h : w ∈ ws) :
    w.longest ≤ longestAmong ws := by
  induction ws with
  | nil => exact absurd h List.not_mem_nil
  | cons w' ws ih =>
    rw [longestAmong]
    rcases List.mem_cons.1 h with rfl | h
    · exact Nat.le_max_left _ _
    · exact Nat.le_trans (ih h) (Nat.le_max_right _ _)

variable {low high : Int} {origin : List Part} {w : Witness} {query : Query}

theorem rest_of_mem_allInputs {arity : Nat} (h : d' ∈ (Outline.allInputs arity).parts) :
    d'.rest.parts = [] := by
  obtain ⟨i, -, rfl⟩ := mem_allInputs_iff.1 h
  rw [Designator.parts_rest, Designator.parts_compose]
  rfl

/-- A part of an element is a part of the input, moved to the element. -/
theorem rest_moveToElement {n : Nat} (h : d' ∈ (w.outline query d).parts) :
    (moveToElement n d').rest.parts = .element n :: d'.rest.parts := by
  obtain ⟨i, -, hhead⟩ := head_of_mem_outline h
  rw [moveToElement, hhead]
  dsimp only
  rw [elementPart, Designator.rest_nest_cons Part.input_ne_identity, Designator.parts_nest]
  rfl

/-- Behind its pin, what explains a part of an output stays as the part was. -/
theorem Unquantified.stays (hw : w.Unquantified) (hlow : low ≤ 0) (hhigh : 2 * w.longest ≤ high)
    (hd : Stays low high origin d.parts) (h : d' ∈ (w.outline query d).parts) :
    Stays low high origin d'.rest.parts := by
  induction hw generalizing origin d d' with
  | linkAll arity =>
    rw [outline] at h
    rw [rest_of_mem_allInputs h]
    exact .nil
  | forked =>
    rw [outline] at h
    obtain rfl := List.mem_singleton.1 h
    rwa [Designator.rest_nest_cons Part.input_ne_identity, Designator.nest_nil]
  | found place =>
    rw [longest] at hhigh
    rcases mem_outline_found h with ⟨r, hr, rfl⟩ | h
    · rw [Designator.rest_nest_cons Part.input_ne_identity, Designator.parts_nest]
      rcases Found.of_inputRange? hr with ⟨r', hp, hstart, hstop, -⟩ | ⟨hp, hstart, hstop⟩
      · -- The range of the match is in the part, and its start is moved upwards.
        rw [Designator.parts_eq_of_head hp nofun] at hd
        have hr' := (hd.range r' List.mem_cons_self).1
        exact .range_cons (.inr ⟨r', hd⟩) ⟨by omega, by omega⟩
      · have hrest : d.rest.parts = [] := by
          rw [Designator.parts_rest, Designator.parts_eq_nil_of_head hp]
          rfl
        exact .range_cons (.inl hrest) ⟨by omega, by omega⟩
    · rw [rest_of_mem_allInputs h]
      exact .nil
  | applied _ ih =>
    rcases mem_outline_applied h with ⟨n, w, e, hn, hw, he, rfl⟩ | h
    · rw [Designator.parts_eq_of_head hn Part.element_ne_identity] at hd
      obtain ⟨origin', rfl, hd'⟩ := hd.exists_tail rfl
      rw [longest] at hhigh
      have hle := longest_le_longestAmong hw
      rw [rest_moveToElement he]
      exact (ih w hw (by omega) hd' he).cons rfl
    · rw [rest_of_mem_allInputs h]
      exact .nil

end Witness

end Lineage
