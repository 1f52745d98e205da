import Lineage.Decimal.Basic

/-!
# Binary floating-point numbers

The finite floating-point numbers of 64 bits, as decimals are rounded to them:
to the nearest one, and halfway between two to the one with the even mantissa.
Such a number is shown by the fewest decimal digits that are rounded to it.
-/

namespace Lineage

/-- The number `± mantissa · 2 ^ exponent`. The mantissa has 53 bits, or fewer at
    the least exponent. -/
structure Binary where
  negative : Bool
  mantissa : Nat
  exponent : Int
deriving Repr, DecidableEq

namespace Binary

/-- The least exponent. -/
def minExponent : Int := -1074

/-- A quotient rounded to the nearest natural number, and halfway between two to
    the even one. -/
def roundQuotient (num den : Nat) : Nat :=
  let q := num / den
  let r := 2 * (num % den)
  if r < den ∨ r = den ∧ q % 2 = 0 then q else q + 1

/-- The quotient of `num` and `den · base ^ e`, as a numerator and a
    denominator. -/
def scale (base num den : Nat) (e : Int) : Nat × Nat :=
  if 0 ≤ e then (num, den * Nat.pow base e.toNat) else (num * Nat.pow base (-e).toNat, den)

/-- The zero with a sign. -/
def zero (negative : Bool) : Binary := ⟨negative, 0, minExponent⟩

/-- The number nearest to the quotient of `num` and `den`, without a bound on
    its exponent. -/
def ofQuotient (negative : Bool) (num den : Nat) : Binary :=
  if num = 0 then zero negative
  else
    let guess : Int := (num.log2 : Int) - den.log2 - 53
    let (n, d) := scale 2 num den guess
    let e := max minExponent (if n / d < Nat.pow 2 53 then guess else guess + 1)
    let (n, d) := scale 2 num den e
    let m := roundQuotient n d
    if m = Nat.pow 2 53 then ⟨negative, Nat.pow 2 52, e + 1⟩ else ⟨negative, m, e⟩

/-- The number nearest to a decimal, unless it is infinite. What is far below
    the least number is zero. -/
def ofDecimal? (x : Decimal) : Option Binary :=
  if !x.isFinite then none
  else if x.coefficient = 0 ∨ (Nat.toDigits 10 x.coefficient).length + x.exponent < -400 then
    some (zero x.negative)
  else
    let (num, den) := scale 10 x.coefficient 1 (-x.exponent)
    some (ofQuotient x.negative num den)

/-- The magnitude, as a numerator and a denominator. -/
def magnitude (b : Binary) : Nat × Nat := scale 2 b.mantissa 1 (-b.exponent)

/-- The nearest natural number; halfway between two the greater. -/
def roundToNat (b : Binary) : Nat :=
  let (num, den) := b.magnitude
  if b.negative then 0 else (2 * num + den) / (2 * den)

/-! ### Arithmetic -/

/-- The greatest exponent; a number beyond it is infinite. -/
def maxExponent : Int := 971

/-- The product, rounded, unless it is infinite. -/
def mul? (a b : Binary) : Option Binary :=
  let (num, den) := scale 2 (a.mantissa * b.mantissa) 1 (-(a.exponent + b.exponent))
  let product := ofQuotient (a.negative != b.negative) num den
  if product.exponent ≤ maxExponent then some product else none

/-- The quotient, rounded. What is divided by is at least one, so the quotient is
    not infinite. -/
def div (a b : Binary) : Binary :=
  let (num, den) := scale 2 a.mantissa b.mantissa (b.exponent - a.exponent)
  ofQuotient (a.negative != b.negative) num den

/-! ### Shortest decimals -/

/-- The decimal with `digits` digits nearest to the number, if it is rounded to
    the number; without digits, the power of ten above the number. All numbers are
    greater than `10 ^ -400`. -/
def decimalOf? (b : Binary) (digits : Nat) : Option Decimal :=
  let (num, den) := b.magnitude
  let places : Int := (Nat.toDigits 10 (num * Nat.pow 10 400 / den)).length - 400
  let e := places - digits
  let (n, d) := scale 10 num den e
  let below : Decimal := ⟨b.negative, n / d, e⟩
  let above : Decimal := ⟨b.negative, n / d + 1, e⟩
  let nearest := if roundQuotient n d = n / d then [below, above] else [above, below]
  nearest.find? fun x => ofDecimal? x = some b

/-- The shortest decimal that is rounded to the number, and of several the
    nearest. Seventeen digits always suffice. -/
def shortest (b : Binary) : Decimal :=
  if b.mantissa = 0 then ⟨b.negative, 0, 0⟩
  else ((List.range 18).findSome? b.decimalOf?).getD ⟨b.negative, 0, 0⟩

end Binary

namespace Decimal

/-- The decimal without an exponent; the point stands only before further
    digits. -/
def positional (x : Decimal) : String :=
  let digits := Nat.toDigits 10 x.coefficient
  let below := (-x.exponent).toNat
  let text :=
    if 0 ≤ x.exponent then
      if x.coefficient = 0 then digits else digits ++ List.replicate x.exponent.toNat '0'
    else if below < digits.length then
      digits.take (digits.length - below) ++ '.' :: digits.drop (digits.length - below)
    else '0' :: '.' :: List.replicate (below - digits.length) '0' ++ digits
  String.ofList (if x.negative then '-' :: text else text)

end Decimal

end Lineage
