/-!
# Words

Positions and integer values are signed words of 64 bits; the numbers of pins,
elements and functions are unsigned ones. Numbers themselves are plain `Int`s
and `Nat`s: a number that is not a word is refused where it is read or computed,
so none is ever reduced.
-/

namespace Lineage.Word

/-- `i` is a signed word: it lies between `-2 ^ 63`, included, and `2 ^ 63`. -/
def Signed (i : Int) : Prop := -9223372036854775808 ≤ i ∧ i < 9223372036854775808

/-- The greatest unsigned word, `2 ^ 64 - 1`. -/
def greatest : Nat := 18446744073709551615

/-- `n` is an unsigned word. -/
def Unsigned (n : Nat) : Prop := n ≤ greatest

instance : DecidablePred Signed := fun i => inferInstanceAs (Decidable (_ ≤ i ∧ i < _))

instance : DecidablePred Unsigned := fun n => inferInstanceAs (Decidable (n ≤ _))

/-- `i`, if it is a signed word. -/
def signed? (i : Int) : Option Int := if Signed i then some i else none

/-- `n`, if it is an unsigned word. -/
def unsigned? (n : Nat) : Option Nat := if Unsigned n then some n else none

/-- The sum of two signed words, if it is one. -/
def add? (a b : Int) : Option Int := signed? (a + b)

/-- The difference of two signed words, if it is one. -/
def sub? (a b : Int) : Option Int := signed? (a - b)

theorem signed?_eq_some_iff {i j : Int} : signed? i = some j ↔ Signed i ∧ i = j := by
  simp [signed?]

theorem signed?_eq_none_iff {i : Int} : signed? i = none ↔ ¬Signed i := by
  simp [signed?]

theorem unsigned?_eq_some_iff {n m : Nat} : unsigned? n = some m ↔ Unsigned n ∧ n = m := by
  simp [unsigned?]

theorem add?_eq_some_iff {a b c : Int} : add? a b = some c ↔ Signed (a + b) ∧ a + b = c :=
  signed?_eq_some_iff

end Lineage.Word
