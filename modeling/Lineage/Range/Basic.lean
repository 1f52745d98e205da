import Lineage.Word

/-!
# Ranges of positions

A range is a nonempty interval of character positions, both ends included.
-/

namespace Lineage

/-- The positions from `start` to `stop`, both included. -/
structure Range where
  /-- The first position. -/
  start : Int
  /-- The last position. -/
  stop : Int
  start_le_stop : start ≤ stop
deriving Repr, DecidableEq

namespace Range

/-- A position lies in a range when it is between its ends. -/
instance : Membership Int Range where
  mem r p := r.start ≤ p ∧ p ≤ r.stop

theorem mem_iff {r : Range} {p : Int} : p ∈ r ↔ r.start ≤ p ∧ p ≤ r.stop := Iff.rfl

instance (r : Range) (p : Int) : Decidable (p ∈ r) :=
  inferInstanceAs (Decidable (_ ∧ _))

/-- Both ends are words. -/
def Bounded (r : Range) : Prop := Word.Signed r.start ∧ Word.Signed r.stop

instance : DecidablePred Bounded :=
  fun _ => inferInstanceAs (Decidable (Word.Signed _ ∧ Word.Signed _))

/-- The displayed form: `I2-5`, or `I2` for a single position. -/
def text (r : Range) : String :=
  if r.start < r.stop then s!"I{r.start}-{r.stop}" else s!"I{r.start}"

end Range

end Lineage
