import Lineage.Range.Arithmetic
import Mathlib.Algebra.Order.Ring.Int
import Mathlib.Algebra.Order.Interval.Finset.Basic
import Mathlib.Data.Int.Interval

/-!
# Ranges as sets of positions

The arithmetic of ranges is that of the sets of their positions, up to both ends of the
words (`actsOnPositions`): ranges are intersected as these sets are, a length is how many
positions there are, and a shift moves each of them. Only what is no word is refused, and
nothing else.

A range is known by its positions, and no range has none. So a law of intersections of
sets is one of intersections of ranges, if no range at all stands for no positions
(`positionsOf_injective`).
-/

namespace Lineage.Range

variable {r s t r' s' : Range} {p offset n : Int}

/-- The positions of a range. -/
def positions (r : Range) : Finset Int :=
  -- The order is named, as the integers have it from more than one instance.
  @Finset.Icc Int instLatticeInt.toPartialOrder.toPreorder Int.instLocallyFiniteOrder r.start r.stop

/-- The positions of a range that may be missing. -/
def positionsOf : Option Range → Finset Int
  | some r => r.positions
  | none => ∅

@[simp]
theorem mem_positions : p ∈ r.positions ↔ p ∈ r := Finset.mem_Icc

theorem start_mem (r : Range) : r.start ∈ r := ⟨Int.le_refl _, r.start_le_stop⟩

theorem stop_mem (r : Range) : r.stop ∈ r := ⟨r.start_le_stop, Int.le_refl _⟩

theorem eq_of_ends (hstart : r.start = s.start) (hstop : r.stop = s.stop) : r = s := by
  cases r
  cases s
  congr

/-- A range is known by its positions, the least and the greatest of which are its ends. -/
theorem positions_injective : Function.Injective positions := by
  intro r s h
  have hmem (p : Int) : p ∈ r ↔ p ∈ s := by rw [← mem_positions, h, mem_positions]
  have hstart := (hmem _).1 r.start_mem
  have hstart' := (hmem _).2 s.start_mem
  have hstop := (hmem _).1 r.stop_mem
  have hstop' := (hmem _).2 s.stop_mem
  exact eq_of_ends (Int.le_antisymm hstart'.1 hstart.1) (Int.le_antisymm hstop.2 hstop'.2)

theorem positionsOf_injective : Function.Injective positionsOf := by
  have hne (r : Range) : r.positions ≠ ∅ :=
    Finset.ne_empty_of_mem (mem_positions.2 r.start_mem)
  intro o o' h
  cases o with
  | none =>
    cases o' with
    | none => rfl
    | some s => exact absurd h.symm (hne s)
  | some r =>
    cases o' with
    | none => exact absurd h (hne r)
    | some s => exact congrArg some (positions_injective h)

/-! ### Intersections -/

theorem intersect_eq_some_iff : r.intersect s = some t ↔
    t.start = max r.start s.start ∧ t.stop = min r.stop s.stop := by
  have ht := t.start_le_stop
  rw [intersect]
  split
  · rw [Option.some_inj, mk.injEq, eq_comm, eq_comm (a := t.stop)]
  · next h =>
    refine iff_of_false nofun fun he => h ?_
    unfold Overlaps
    omega

theorem intersect_eq_none_iff_not_overlaps : r.intersect s = none ↔ ¬r.Overlaps s := by
  rw [intersect]
  split
  · next h => exact iff_of_false nofun fun hnot => hnot h
  · next h => exact iff_of_true rfl h

/-- The positions in the intersection are those in both ranges. -/
theorem positionsOf_intersect (r s : Range) :
    positionsOf (r.intersect s) = r.positions ∩ s.positions := by
  ext p
  rw [Finset.mem_inter, mem_positions, mem_positions]
  cases h : r.intersect s with
  | some t =>
    obtain ⟨hstart, hstop⟩ := intersect_eq_some_iff.1 h
    rw [positionsOf, mem_positions, mem_iff, mem_iff, mem_iff]
    omega
  | none =>
    have hnot := intersect_eq_none_iff_not_overlaps.1 h
    unfold Overlaps at hnot
    refine iff_of_false (Finset.notMem_empty p) fun hp => hnot ?_
    rw [mem_iff, mem_iff] at hp
    omega

theorem intersect_eq_none_iff : r.intersect s = none ↔ Disjoint r.positions s.positions := by
  rw [Finset.disjoint_iff_inter_eq_empty, ← positionsOf_intersect]
  exact positionsOf_injective.eq_iff.symm

theorem overlaps_iff : r.Overlaps s ↔ ¬Disjoint r.positions s.positions := by
  rw [← intersect_eq_none_iff, intersect_eq_none_iff_not_overlaps, Decidable.not_not]

theorem intersect_comm (r s : Range) : r.intersect s = s.intersect r :=
  positionsOf_injective <| by
    rw [positionsOf_intersect, positionsOf_intersect, Finset.inter_comm]

theorem positionsOf_bind_intersect (o : Option Range) (s : Range) :
    positionsOf (o.bind (·.intersect s)) = positionsOf o ∩ s.positions := by
  cases o with
  | none => exact (Finset.empty_inter _).symm
  | some r => exact positionsOf_intersect r s

theorem intersect_assoc (r s t : Range) :
    (r.intersect s).bind (·.intersect t) = (s.intersect t).bind r.intersect := by
  have hflip : r.intersect = (·.intersect r) := funext fun u => r.intersect_comm u
  apply positionsOf_injective
  calc positionsOf ((r.intersect s).bind (·.intersect t))
      = r.positions ∩ s.positions ∩ t.positions := by
        rw [positionsOf_bind_intersect, positionsOf_intersect]
    _ = s.positions ∩ t.positions ∩ r.positions := by
        rw [Finset.inter_assoc, Finset.inter_comm]
    _ = positionsOf ((s.intersect t).bind r.intersect) := by
        rw [hflip, positionsOf_bind_intersect, positionsOf_intersect]

theorem intersect_self (r : Range) : r.intersect r = some r :=
  intersect_eq_some_iff.2 ⟨(max_self _).symm, (min_self _).symm⟩

/-- Each end of the intersection is one of the ends of the two ranges. -/
theorem Bounded.intersect (hr : r.Bounded) (hs : s.Bounded) (h : r.intersect s = some t) :
    t.Bounded := by
  obtain ⟨hstart, hstop⟩ := intersect_eq_some_iff.1 h
  unfold Bounded Word.Signed at *
  omega

/-! ### Lengths -/

theorem card_positions (r : Range) : (r.positions.card : Int) = r.stop - r.start + 1 := by
  have hr := r.start_le_stop
  rw [positions, Int.card_Icc]
  omega

/-- The length is the number of positions, unless that is no word. -/
theorem length_eq (r : Range) : r.length =
    if Word.Signed r.positions.card then .ok (r.positions.card : Int)
    else .error (.overflow (.lengthOf r)) := by
  have h := r.toOption_length
  rw [← card_positions, Word.signed?] at h
  unfold length at h ⊢
  split at h
  · split at h
    · next hn => rw [if_pos hn, Option.some.inj h]
    · exact absurd h (Option.some_ne_none _)
  · split at h
    · exact absurd h.symm (Option.some_ne_none _)
    · next hn => rw [if_neg hn]

theorem length_eq_ok_iff :
    r.length = .ok n ↔ Word.Signed r.positions.card ∧ r.positions.card = n := by
  rw [length_eq]
  split
  · next h => rw [Except.ok.injEq, and_iff_right h]
  · next h => exact iff_of_false nofun fun hn => h hn.1

/-! ### Shifts -/

/-- Both ends of the range are words when they are moved by `offset`. -/
def Shiftable (r : Range) (offset : Int) : Prop :=
  Word.Signed (r.start + offset) ∧ Word.Signed (r.stop + offset)

theorem shift_eq_ok_iff : r.shift offset = .ok t ↔
    r.Shiftable offset ∧ t.start = r.start + offset ∧ t.stop = r.stop + offset := by
  unfold shift
  split
  · next start stop h₁ h₂ =>
    obtain ⟨hstart, rfl⟩ := Word.add?_eq_some_iff.1 h₁
    obtain ⟨hstop, rfl⟩ := Word.add?_eq_some_iff.1 h₂
    constructor
    · intro h
      obtain rfl := Except.ok.inj h
      exact ⟨⟨hstart, hstop⟩, rfl, rfl⟩
    · intro h
      exact congrArg _ (eq_of_ends h.2.1.symm h.2.2.symm)
  · next h =>
    refine iff_of_false nofun fun ht => ?_
    exact h _ _ (Word.add?_eq_some_iff.2 ⟨ht.1.1, rfl⟩) (Word.add?_eq_some_iff.2 ⟨ht.1.2, rfl⟩)

theorem exists_shift_iff : (∃ t, r.shift offset = .ok t) ↔ r.Shiftable offset := by
  constructor
  · rintro ⟨t, ht⟩
    exact (shift_eq_ok_iff.1 ht).1
  · intro h
    have hr := r.start_le_stop
    exact ⟨⟨r.start + offset, r.stop + offset, by omega⟩, shift_eq_ok_iff.2 ⟨h, rfl, rfl⟩⟩

theorem shift_eq_error (h : ¬r.Shiftable offset) :
    r.shift offset = .error (.overflow (.shifted r offset)) := by
  unfold shift
  split
  · next start stop h₁ h₂ =>
    exact absurd ⟨(Word.add?_eq_some_iff.1 h₁).1, (Word.add?_eq_some_iff.1 h₂).1⟩ h
  · rfl

/-- A shift moves each position. -/
theorem positions_shift (h : r.shift offset = .ok t) :
    t.positions = r.positions.image (· + offset) := by
  obtain ⟨-, hstart, hstop⟩ := shift_eq_ok_iff.1 h
  rw [positions, hstart, hstop]
  exact (Finset.image_add_right_Icc r.start r.stop offset).symm

/-- A shift neither adds nor loses a position. -/
theorem toOption_length_shift (h : r.shift offset = .ok t) :
    t.length.toOption = r.length.toOption := by
  obtain ⟨-, hstart, hstop⟩ := shift_eq_ok_iff.1 h
  rw [toOption_length, toOption_length, hstart, hstop, add_sub_add_right_eq_sub]

section Shifted

variable (hr : r.shift offset = .ok r') (hs : s.shift offset = .ok s')

include hr hs

theorem overlaps_shift : r'.Overlaps s' ↔ r.Overlaps s := by
  rw [overlaps_iff, overlaps_iff, positions_shift hr, positions_shift hs,
    Finset.disjoint_image (add_left_injective offset)]

/-- Whether ranges are intersected before or after they are shifted makes no difference: what is
    common to two that can be shifted can be shifted. -/
theorem intersect_shift :
    (r.intersect s).mapM (·.shift offset) = .ok (r'.intersect s') := by
  obtain ⟨hr₁, hr₂, hr₃⟩ := shift_eq_ok_iff.1 hr
  obtain ⟨hs₁, hs₂, hs₃⟩ := shift_eq_ok_iff.1 hs
  cases h : r.intersect s with
  | none =>
    have hnone : r'.intersect s' = none := by
      rw [intersect_eq_none_iff_not_overlaps, overlaps_shift hr hs]
      exact intersect_eq_none_iff_not_overlaps.1 h
    rw [hnone]
    rfl
  | some t =>
    obtain ⟨hstart, hstop⟩ := intersect_eq_some_iff.1 h
    -- The ends of the intersection are among those that the two shifts move.
    have hshiftable : t.Shiftable offset := by
      unfold Shiftable Word.Signed at *
      omega
    obtain ⟨t', ht'⟩ := exists_shift_iff.2 hshiftable
    obtain ⟨-, hstart', hstop'⟩ := shift_eq_ok_iff.1 ht'
    have hsome : r'.intersect s' = some t' := intersect_eq_some_iff.2 ⟨by omega, by omega⟩
    rw [hsome, Option.mapM_some, ht']
    rfl

end Shifted

/-- Shifting back restores the range. -/
theorem shift_neg (hr : r.Bounded) (h : r.shift offset = .ok t) : t.shift (-offset) = .ok r := by
  obtain ⟨-, hstart, hstop⟩ := shift_eq_ok_iff.1 h
  have hstart' : r.start = t.start + -offset := by omega
  have hstop' : r.stop = t.stop + -offset := by omega
  exact shift_eq_ok_iff.2 ⟨⟨hstart' ▸ hr.1, hstop' ▸ hr.2⟩, hstart', hstop'⟩

/-! ### All together -/

/-- What is done to ranges is done to their positions. -/
structure ActsOnPositions (r s t : Range) (offset : Int) : Prop where
  positions_intersect : positionsOf (r.intersect s) = r.positions ∩ s.positions
  intersect_eq_none_iff : r.intersect s = none ↔ Disjoint r.positions s.positions
  not_overlaps_iff : ¬r.Overlaps s ↔ Disjoint r.positions s.positions
  comm : r.intersect s = s.intersect r
  assoc : (r.intersect s).bind (·.intersect t) = (s.intersect t).bind r.intersect
  self : r.intersect r = some r
  /-- The ends of an intersection are in order, and words. -/
  ends : ∀ u, r.intersect s = some u → u.start = max r.start s.start ∧
    u.stop = min r.stop s.stop ∧ u.start ≤ u.stop ∧ u.Bounded
  /-- The length is the number of positions, if that is a word. -/
  length_eq_ok_iff : ∀ n, r.length = .ok n ↔
    Word.Signed r.positions.card ∧ r.positions.card = n
  length_eq_error : ¬Word.Signed r.positions.card → r.length = .error (.overflow (.lengthOf r))
  /-- A shift succeeds if both ends that it leads to are words. -/
  exists_shift_iff : (∃ u, r.shift offset = .ok u) ↔
    Word.Signed (r.start + offset) ∧ Word.Signed (r.stop + offset)
  shift_eq_error : ¬(Word.Signed (r.start + offset) ∧ Word.Signed (r.stop + offset)) →
    r.shift offset = .error (.overflow (.shifted r offset))
  /-- A shift moves each position, and can be undone. -/
  shift : ∀ u, r.shift offset = .ok u → u.Bounded ∧
    u.positions = r.positions.image (· + offset) ∧ u.length.toOption = r.length.toOption ∧
    u.shift (-offset) = .ok r
  /-- Ranges may be compared and intersected before they are shifted or after. -/
  shift_both : ∀ r' s', r.shift offset = .ok r' → s.shift offset = .ok s' →
    (r'.Overlaps s' ↔ r.Overlaps s) ∧
    (r.intersect s).mapM (·.shift offset) = .ok (r'.intersect s')

/-- The arithmetic of ranges with words for ends is that of their sets of positions. -/
theorem actsOnPositions (hr : r.Bounded) (hs : s.Bounded) (t : Range) (offset : Int) :
    ActsOnPositions r s t offset where
  positions_intersect := positionsOf_intersect r s
  intersect_eq_none_iff := intersect_eq_none_iff
  not_overlaps_iff := by rw [overlaps_iff, Decidable.not_not]
  comm := intersect_comm r s
  assoc := intersect_assoc r s t
  self := intersect_self r
  ends u hu := by
    obtain ⟨hstart, hstop⟩ := intersect_eq_some_iff.1 hu
    exact ⟨hstart, hstop, u.start_le_stop, hr.intersect hs hu⟩
  length_eq_ok_iff _ := length_eq_ok_iff
  length_eq_error h := by rw [length_eq, if_neg h]
  exists_shift_iff := exists_shift_iff
  shift_eq_error := shift_eq_error
  shift u hu := by
    obtain ⟨hends, hstart, hstop⟩ := shift_eq_ok_iff.1 hu
    exact ⟨⟨hstart ▸ hends.1, hstop ▸ hends.2⟩, positions_shift hu, toOption_length_shift hu,
      shift_neg hr hu⟩
  shift_both _ _ hr' hs' := ⟨overlaps_shift hr' hs', intersect_shift hr' hs'⟩

theorem least_le_greatest : (-9223372036854775808 : Int) ≤ 9223372036854775807 := by decide

/-- All words. -/
def widest : Range := ⟨-9223372036854775808, 9223372036854775807, least_le_greatest⟩

/-- The last words. -/
def topmost : Range := ⟨9223372036854775000, 9223372036854775807, by decide⟩

/-- There are too many words to count them by one, and they cannot be moved; the last of them
    can. -/
theorem actsOnPositions_widest : widest.Bounded ∧ topmost.Bounded ∧
    ActsOnPositions widest topmost (single 0) (-807) ∧
    widest.intersect topmost = some topmost ∧ topmost.length = .ok 808 ∧
    widest.length = .error (.overflow (.lengthOf widest)) ∧
    widest.shift (-807) = .error (.overflow (.shifted widest (-807))) ∧
    topmost.shift (-807) = .ok ⟨9223372036854774193, 9223372036854775000, by decide⟩ := by
  have hwidest : widest.Bounded := by decide
  have htopmost : topmost.Bounded := by decide
  exact ⟨hwidest, htopmost, actsOnPositions hwidest htopmost (single 0) (-807), rfl, rfl, rfl, rfl,
    rfl⟩

end Lineage.Range
