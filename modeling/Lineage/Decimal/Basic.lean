/-!
# Decimals

Numbers as they are written: a sign, the digits read as one natural number, and
the power of ten that places the point. Nothing is rounded, and minus zero is
told apart from zero.
-/

namespace Lineage

/-- The number `± coefficient · 10 ^ exponent`. -/
structure Decimal where
  negative : Bool
  coefficient : Nat
  exponent : Int
deriving Repr, DecidableEq

namespace Decimal

/-- The natural number that a run of decimal digits denotes. -/
def ofDigits (digits : List Char) : Nat := Nat.ofDigitChars 10 digits 0

theorem ofDigits_toDigits (n : Nat) : ofDigits (Nat.toDigits 10 n) = n :=
  Nat.ofDigitChars_toDigits (by decide) (by decide)

/-- The least magnitude that rounds to infinity among the binary floating-point
    numbers of 64 bits. -/
def overflowBound : Nat := Nat.pow 2 1024 - Nat.pow 2 970

/-- The number is within the range of the binary floating-point numbers of 64
    bits. The number of digits settles it unless the magnitude is close to the
    bound, so no power is computed beyond what the digits themselves need. -/
def isFinite (x : Decimal) : Bool :=
  let places : Int := (Nat.toDigits 10 x.coefficient).length + x.exponent
  if x.coefficient = 0 ∨ places < 300 then true
  else if 320 < places then false
  else if 0 ≤ x.exponent then x.coefficient * Nat.pow 10 x.exponent.toNat < overflowBound
  else x.coefficient < overflowBound * Nat.pow 10 (-x.exponent).toNat

end Decimal

end Lineage
