import Lineage.Error

/-!
# Arithmetic of ranges

Ranges are made from two ends, measured, shifted, and intersected. Making one
fails when the ends are the wrong way round; measuring and shifting fail when
the outcome is no word. Nothing is clamped or swapped.
-/

namespace Lineage.Range

/-- The range with the given ends. -/
def ofEnds (start stop : Int) : Except Error Range :=
  if h : start ≤ stop then .ok ⟨start, stop, h⟩ else .error (.malformedRange start stop)

theorem toOption_ofEnds_eq_some_iff {start stop : Int} {r : Range} :
    (ofEnds start stop).toOption = some r ↔ r.start = start ∧ r.stop = stop := by
  have hr := r.start_le_stop
  by_cases h : start ≤ stop
  · have hends : ofEnds start stop = .ok ⟨start, stop, h⟩ := dif_pos h
    rw [hends, Except.toOption, Option.some_inj, mk.injEq, eq_comm, eq_comm (a := stop)]
  · have hends : ofEnds start stop = .error (.malformedRange start stop) := dif_neg h
    rw [hends]
    exact iff_of_false nofun (by omega)

/-- The range of the single position `p`. -/
def single (p : Int) : Range := ⟨p, p, Int.le_refl p⟩

/-- The number of positions. -/
def length (r : Range) : Except Error Int :=
  match (Word.sub? r.stop r.start).bind (Word.add? · 1) with
  | some n => .ok n
  | none => .error (.overflow (.lengthOf r))

/-- A difference that is no word does not become one by adding one, as it is not negative. -/
theorem toOption_length (r : Range) : r.length.toOption = Word.signed? (r.stop - r.start + 1) := by
  have hr := r.start_le_stop
  have hlength : (Word.sub? r.stop r.start).bind (Word.add? · 1) =
      Word.signed? (r.stop - r.start + 1) := by
    by_cases h : Word.Signed (r.stop - r.start)
    · rw [Word.sub?, Word.signed?_eq_some_iff.2 ⟨h, rfl⟩]
      rfl
    · have hnot : ¬Word.Signed (r.stop - r.start + 1) := by
        unfold Word.Signed at h ⊢
        omega
      rw [Word.sub?, Word.signed?_eq_none_iff.2 h, Word.signed?_eq_none_iff.2 hnot]
      rfl
  rw [length, hlength]
  cases Word.signed? (r.stop - r.start + 1) <;> rfl

/-- The range with both ends moved by `offset`. -/
def shift (r : Range) (offset : Int) : Except Error Range :=
  match h₁ : Word.add? r.start offset, h₂ : Word.add? r.stop offset with
  | some start, some stop => .ok ⟨start, stop, by
      have := (Word.add?_eq_some_iff.1 h₁).2
      have := (Word.add?_eq_some_iff.1 h₂).2
      have := r.start_le_stop
      omega⟩
  | _, _ => .error (.overflow (.shifted r offset))

/-- The ranges have a position in common. -/
def Overlaps (r s : Range) : Prop := ¬(s.stop < r.start ∨ r.stop < s.start)

instance (r s : Range) : Decidable (r.Overlaps s) := inferInstanceAs (Decidable (¬_))

/-- The positions in both ranges, if there are any. -/
def intersect (r s : Range) : Option Range :=
  if h : r.Overlaps s then
    some ⟨max r.start s.start, min r.stop s.stop, by
      have := r.start_le_stop
      have := s.start_le_stop
      unfold Overlaps at h
      omega⟩
  else none

/-- The order by first position, then by last position. -/
instance : Ord Range where
  compare r s := (compare r.start s.start).then (compare r.stop s.stop)

/-- Ranges in ascending order. -/
def sort (ranges : List Range) : List Range :=
  ranges.mergeSort fun r s => (compare r s).isLE

end Lineage.Range
