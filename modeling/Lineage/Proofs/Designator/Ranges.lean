import Lineage.Proofs.Designator.Chain
import Mathlib.Logic.Function.Iterate

/-!
# Ranges in a chain

A chain of parts may hold several ranges. The one that is mentioned, and the one that
is replaced, is the first; the one that is removed is the last. Each is found by a scan
of its own, so the proofs split the chain at the first range (`FirstRange`), at the last
(`LastRange`), or at both (`exists_first_last`), and say what becomes of the pieces
(`mentionedRange?_of_first`, `parts_removeRange`, `parts_replaceRange`).

With two ranges or more, the first and the last are different ones. So removals
leave the range that is mentioned alone until it is the only one, and what is done to
either may be done in any order (`editsRanges`).
-/

namespace Lineage

namespace Part

variable {p : Part} {r : Range}

theorem range?_eq_some_iff : p.range? = some r ↔ p = .range r := by
  cases p <;> simp [range?]

theorem range?_eq_none_iff : p.range? = none ↔ ¬p.isRange := by
  cases p <;> simp [range?, isRange]

theorem exists_of_isRange (h : p.isRange) : ∃ r, p = .range r := by
  cases p with
  | range r => exact ⟨r, rfl⟩
  | _ => exact absurd h Bool.false_ne_true

end Part

namespace Designator

variable {d : Designator} {ps before middle after : List Part} {r s : Range} {p : Part} {n : Nat}

/-- The number of ranges in the chain. -/
def rangeCount (d : Designator) : Nat := d.parts.countP Part.isRange

/-- Among the parts, the range `r` is the first. -/
structure FirstRange (ps before : List Part) (r : Range) (after : List Part) : Prop where
  eq : ps = before ++ .range r :: after
  before : ∀ p ∈ before, ¬p.isRange

/-- Among the parts, the range `r` is the last. -/
structure LastRange (ps before : List Part) (r : Range) (after : List Part) : Prop where
  eq : ps = before ++ .range r :: after
  after : ∀ p ∈ after, ¬p.isRange

theorem exists_first (h : 0 < ps.countP Part.isRange) :
    ∃ before r after, FirstRange ps before r after := by
  obtain ⟨p, hp, hrange⟩ := List.countP_pos_iff.1 h
  obtain ⟨q, before, after, hbefore, hq, heq, -⟩ := List.exists_of_eraseP hp hrange
  obtain ⟨r, rfl⟩ := Part.exists_of_isRange hq
  exact ⟨before, r, after, heq, hbefore⟩

/-- The last range is the first from behind. -/
theorem exists_last (h : 0 < ps.countP Part.isRange) :
    ∃ before r after, LastRange ps before r after := by
  have hpos : 0 < ps.reverse.countP Part.isRange := by simpa using h
  obtain ⟨after, r, before, hfirst⟩ := exists_first hpos
  refine ⟨before.reverse, r, after.reverse, ?_, by simpa using hfirst.before⟩
  rw [← List.reverse_reverse ps, hfirst.eq]
  simp

theorem FirstRange.countP (h : FirstRange ps before r after) :
    ps.countP Part.isRange = after.countP Part.isRange + 1 := by
  rw [h.eq, List.countP_append, List.countP_eq_zero.2 h.before, List.countP_cons_of_pos rfl,
    Nat.zero_add]

theorem LastRange.countP (h : LastRange ps before r after) :
    ps.countP Part.isRange = before.countP Part.isRange + 1 := by
  rw [h.eq, List.countP_append, List.countP_cons_of_pos rfl, List.countP_eq_zero.2 h.after]

/-- Of several ranges, the first is not the last. -/
theorem exists_first_last (h : 2 ≤ ps.countP Part.isRange) : ∃ before r middle s after,
    FirstRange ps before r (middle ++ .range s :: after) ∧
      LastRange ps (before ++ .range r :: middle) s after := by
  obtain ⟨before, r, rest, hfirst⟩ := exists_first (Nat.lt_of_lt_of_le Nat.zero_lt_two h)
  have hpos : 0 < rest.countP Part.isRange := by
    have := hfirst.countP
    omega
  obtain ⟨middle, s, after, hlast⟩ := exists_last hpos
  obtain rfl := hlast.eq
  exact ⟨before, r, middle, s, after, hfirst, by simpa using hfirst.eq, hlast.after⟩

/-! ### The range that is mentioned -/

theorem mentionedRange?_eq : d.mentionedRange? = d.parts.findSome? Part.range? := by
  rw [mentionedRange?]
  induction d.parts with
  | nil => rfl
  | cons p ps ih =>
    rw [List.foldr_cons, ih, List.findSome?_cons]
    cases p.range? <;> rfl

theorem mentionedRange?_eq_some_iff :
    d.mentionedRange? = some r ↔ ∃ before after, FirstRange d.parts before r after := by
  rw [mentionedRange?_eq, List.findSome?_eq_some_iff]
  constructor
  · rintro ⟨before, p, after, heq, hp, hbefore⟩
    obtain rfl := Part.range?_eq_some_iff.1 hp
    exact ⟨before, after, heq, fun q hq => Part.range?_eq_none_iff.1 (hbefore q hq)⟩
  · rintro ⟨before, after, h⟩
    refine ⟨before, .range r, after, h.eq, rfl, fun q hq => ?_⟩
    exact Part.range?_eq_none_iff.2 (h.before q hq)

/-! ### The range that is removed -/

theorem dropRange_cons : dropRange (p :: ps) =
    if p.isRange && !(dropRange ps).2 then ((dropRange ps).1, true)
    else (p :: (dropRange ps).1, (dropRange ps).2) := rfl

/-- Where there is no range, all parts are kept. -/
theorem dropRange_of_forall (h : ∀ p ∈ ps, ¬p.isRange) : dropRange ps = (ps, false) := by
  induction ps with
  | nil => rfl
  | cons p ps ih =>
    obtain ⟨hp, hps⟩ := List.forall_mem_cons.1 h
    rw [dropRange_cons, ih hps, if_neg (by simp [hp])]

/-- The scan removes the last range, and none that it meets after that. -/
theorem dropRange_of_last (h : LastRange ps before r after) :
    dropRange ps = (before ++ after, true) := by
  obtain ⟨rfl, hafter⟩ := h
  induction before with
  | nil =>
    rw [List.nil_append, dropRange_cons, dropRange_of_forall hafter]
    rfl
  | cons p before ih =>
    rw [List.cons_append, dropRange_cons, ih, if_neg (by simp)]
    rfl

/-- Some parts of a chain have no identities among them to be left out. -/
theorem filter_of_sublist (h : ps.Sublist d.parts) : ps.filter (· ≠ .identity) = ps := by
  refine List.filter_eq_self.2 fun p hp => ?_
  simpa using fun he : p = .identity => d.identity_not_mem (he ▸ h.subset hp)

theorem parts_removeRange (h : LastRange d.parts before r after) :
    d.removeRange.parts = before ++ after := by
  rw [removeRange, dropRange_of_last h, parts_compose]
  refine filter_of_sublist (d := d) ?_
  rw [h.eq]
  exact (List.sublist_cons_self _ _).append_left before

theorem removeRange_of_forall (h : ∀ p ∈ d.parts, ¬p.isRange) : d.removeRange = d := by
  rw [removeRange, dropRange_of_forall h, compose_parts]

theorem rangeCount_removeRange : d.removeRange.rangeCount = d.rangeCount - 1 := by
  rcases Nat.eq_zero_or_pos d.rangeCount with h | h
  · rw [removeRange_of_forall (List.countP_eq_zero.1 h), h]
  · obtain ⟨before, r, after, hlast⟩ := exists_last h
    rw [rangeCount, rangeCount, parts_removeRange hlast, List.countP_append,
      List.countP_eq_zero.2 hlast.after, hlast.countP]
    rfl

/-- The other parts are kept. -/
theorem filter_removeRange : d.removeRange.parts.filter (!·.isRange) =
    d.parts.filter (!·.isRange) := by
  rcases Nat.eq_zero_or_pos d.rangeCount with h | h
  · rw [removeRange_of_forall (List.countP_eq_zero.1 h)]
  · obtain ⟨before, r, after, hlast⟩ := exists_last h
    rw [parts_removeRange hlast, hlast.eq, List.filter_append, List.filter_append,
      List.filter_cons_of_neg (by simp [Part.isRange])]

/-! ### The range that is replaced -/

theorem replaceRange?_of_forall (h : ∀ p ∈ d.parts, ¬p.isRange) : d.replaceRange? p = none := by
  rw [replaceRange?, Option.map_eq_none_iff, List.findIdx?_eq_none_iff]
  exact fun q hq => eq_false_of_ne_true (h q hq)

theorem replaceRange?_of_first (h : FirstRange d.parts before r after) :
    d.replaceRange? p = some (compose (before ++ p :: after)) := by
  have hidx : d.parts.findIdx? Part.isRange = some before.length := by
    have hbefore : before.findIdx? Part.isRange = none :=
      List.findIdx?_eq_none_iff.2 fun q hq => eq_false_of_ne_true (h.before q hq)
    rw [h.eq, List.findIdx?_append, hbefore]
    simp [List.findIdx?_cons, Part.isRange]
  rw [replaceRange?, hidx, h.eq]
  simp

theorem parts_replaceRange (h : FirstRange d.parts before r after) :
    (d.replaceRange p).parts = before ++ (if p = .identity then [] else [p]) ++ after := by
  have hbefore : before.filter (· ≠ .identity) = before :=
    filter_of_sublist (d := d) (h.eq ▸ List.sublist_append_left _ _)
  have hafter : after.filter (· ≠ .identity) = after := by
    refine filter_of_sublist (d := d) ?_
    rw [h.eq]
    exact (List.sublist_cons_self _ _).trans (List.sublist_append_right _ _)
  rw [replaceRange, replaceRange?_of_first h, Option.getD_some, parts_compose, List.filter_append,
    List.filter_cons, hbefore, hafter]
  by_cases hp : p = .identity <;> simp [hp]

theorem replaceRange_of_forall (h : ∀ p ∈ d.parts, ¬p.isRange) : d.replaceRange p = d := by
  rw [replaceRange, replaceRange?_of_forall h]
  rfl

/-! ### Several edits -/

/-- A removal leaves the first range alone if it is not the only one. -/
theorem mentionedRange?_removeRange (h : 2 ≤ d.rangeCount) :
    d.removeRange.mentionedRange? = d.mentionedRange? := by
  obtain ⟨before, r, middle, s, after, hfirst, hlast⟩ := exists_first_last h
  have hparts : d.removeRange.parts = before ++ .range r :: (middle ++ after) := by
    rw [parts_removeRange hlast]
    simp
  rw [mentionedRange?_eq_some_iff.2 ⟨_, _, hfirst⟩,
    mentionedRange?_eq_some_iff.2 ⟨before, _, hparts, hfirst.before⟩]

theorem mentionedRange?_iterate (h : n < d.rangeCount) :
    (removeRange^[n] d).mentionedRange? = d.mentionedRange? := by
  induction n generalizing d with
  | zero => rfl
  | succ n ih =>
    rw [Function.iterate_succ_apply, ih (by rw [rangeCount_removeRange]; omega),
      mentionedRange?_removeRange (by omega)]

/-- When all ranges are removed, the other parts are left, and no more is removed. -/
theorem parts_iterate (h : d.rangeCount ≤ n) :
    (removeRange^[n] d).parts = d.parts.filter (!·.isRange) := by
  induction n generalizing d with
  | zero =>
    have hnone : ∀ p ∈ d.parts, ¬p.isRange := List.countP_eq_zero.1 (Nat.le_zero.1 h)
    exact (List.filter_eq_self.2 fun p hp => by simpa using hnone p hp).symm
  | succ n ih =>
    rw [Function.iterate_succ_apply, ih (by rw [rangeCount_removeRange]; omega), filter_removeRange]

theorem mentionedRange?_replaceRange (h : 0 < d.rangeCount) :
    (d.replaceRange (.range r)).mentionedRange? = some r := by
  obtain ⟨before, s, after, hfirst⟩ := exists_first h
  refine mentionedRange?_eq_some_iff.2 ⟨before, after, ?_, hfirst.before⟩
  rw [parts_replaceRange hfirst]
  simp

/-- The first range and the last are edited in any order if they differ. -/
theorem replaceRange_removeRange (h : 2 ≤ d.rangeCount) (p : Part) :
    d.removeRange.replaceRange p = (d.replaceRange p).removeRange := by
  obtain ⟨before, r, middle, s, after, hfirst, hlast⟩ := exists_first_last h
  have hremoved : FirstRange d.removeRange.parts before r (middle ++ after) :=
    ⟨by rw [parts_removeRange hlast]; simp, hfirst.before⟩
  have hreplaced : LastRange (d.replaceRange p).parts
      (before ++ (if p = .identity then [] else [p]) ++ middle) s after :=
    ⟨by rw [parts_replaceRange hfirst]; simp, hlast.after⟩
  refine eq_of_parts ?_
  rw [parts_replaceRange hremoved, parts_removeRange hreplaced, List.append_assoc _ middle]

/-- What a mention, a removal and a replacement have to do with the ranges in the chain. -/
structure EditsRanges (d : Designator) : Prop where
  /-- The first range is mentioned. -/
  mentioned : ∀ r, d.mentionedRange? = some r ↔
    ∃ before after, FirstRange d.parts before r after
  /-- The last range is removed, and all other parts are kept in order. -/
  removed : d.rangeCount = 0 ∧ d.removeRange = d ∨ ∃ before r after,
    LastRange d.parts before r after ∧ d.removeRange.parts = before ++ after
  /-- The first range is replaced, by nothing if it is to be the identity; a chain without ranges
      is the same chain. -/
  replaced : ∀ p, d.rangeCount = 0 ∧ d.replaceRange? p = none ∧ d.replaceRange p = d ∨
    ∃ before r after, FirstRange d.parts before r after ∧
      d.replaceRange? p = some (d.replaceRange p) ∧
      (d.replaceRange p).parts = before ++ (if p = .identity then [] else [p]) ++ after
  /-- As many removals as there are ranges leave the other parts, in order; so do more. -/
  stripped : ∀ n ≥ d.rangeCount, (removeRange^[n] d).parts = d.parts.filter (!·.isRange)
  /-- Fewer leave the range that is mentioned. -/
  mentioned_removed : ∀ n < d.rangeCount,
    (removeRange^[n] d).mentionedRange? = d.mentionedRange?
  /-- A range that replaces another is mentioned. -/
  mentioned_replaced : 0 < d.rangeCount →
    ∀ r, (d.replaceRange (.range r)).mentionedRange? = some r
  /-- Of two ranges or more, one may be removed and one replaced in any order. -/
  commute : 2 ≤ d.rangeCount →
    ∀ p, d.removeRange.replaceRange p = (d.replaceRange p).removeRange

theorem editsRanges (d : Designator) : d.EditsRanges where
  mentioned _ := mentionedRange?_eq_some_iff
  removed := by
    rcases Nat.eq_zero_or_pos d.rangeCount with h | h
    · exact .inl ⟨h, removeRange_of_forall (List.countP_eq_zero.1 h)⟩
    · obtain ⟨before, r, after, hlast⟩ := exists_last h
      exact .inr ⟨before, r, after, hlast, parts_removeRange hlast⟩
  replaced p := by
    rcases Nat.eq_zero_or_pos d.rangeCount with h | h
    · have hnone := List.countP_eq_zero.1 h
      exact .inl ⟨h, replaceRange?_of_forall hnone, replaceRange_of_forall hnone⟩
    · obtain ⟨before, r, after, hfirst⟩ := exists_first h
      refine .inr ⟨before, r, after, hfirst, ?_, parts_replaceRange hfirst⟩
      rw [replaceRange, replaceRange?_of_first hfirst, Option.getD_some]
  stripped _ := parts_iterate
  mentioned_removed _ := mentionedRange?_iterate
  mentioned_replaced h _ := mentionedRange?_replaceRange h
  commute := replaceRange_removeRange

/-- The only range is the first and the last, so the order matters. -/
example : (compose [.range ⟨1, 2, by decide⟩]).removeRange.replaceRange (.element 0) = identity ∧
    ((compose [.range ⟨1, 2, by decide⟩]).replaceRange (.element 0)).removeRange =
      compose [.element 0] := by
  decide

end Designator

end Lineage
