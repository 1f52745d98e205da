import Lineage.Decimal.Binary
import Lineage.Word

/-!
# Numbers in JSON

An integer that is a word is kept as it is. Any other number becomes a binary
floating-point number, in steps of which each is rounded: as many of its first
digits as a word holds are taken, and the word is multiplied or divided by the
power of ten that puts the point in its place. So the result may differ from the
nearest floating-point number in its last bits.
-/

namespace Lineage.Json

/-- The word that digits after those of the word `n` make, as far as words go, and
    the digits that are left. -/
def takeWord (n : Nat) : List Char → Nat × List Char
  | [] => (n, [])
  | c :: cs =>
    let m := Decimal.ofDigits [c] + 10 * n
    if Word.Unsigned m then takeWord m cs else (n, c :: cs)

/-- The greatest power of ten that is a floating-point number. -/
def maxPower : Nat := 308

/-- The floating-point number nearest to a power of ten. -/
def powerOfTen (n : Nat) : Binary := .ofQuotient false (Nat.pow 10 n) 1

/-- A number times a power of ten, unless it is infinite. A power beyond `maxPower`
    is divided by in several steps, of which `fuel` bounds the number. -/
def timesPower? : Nat → Binary → Int → Option Binary
  | 0, x, _ => some x
  | fuel + 1, x, power =>
    if x.mantissa = 0 then some x
    else if power < -maxPower then timesPower? fuel (x.div (powerOfTen maxPower)) (power + maxPower)
    else if power < 0 then some (x.div (powerOfTen power.natAbs))
    else if power ≤ maxPower then x.mul? (powerOfTen power.natAbs)
    else none

/-- The floating-point number with the given digits before and after its point,
    times a power of ten, unless it is infinite. Where digits before the point are
    left over, the first after it may still find room. No word is so great that
    three divisions do not bring it to zero. -/
def rounded? (negative : Bool) (whole part : List Char) (power : Int) : Option Binary := do
  let (n, wholeLeft) := takeWord 0 whole
  let (n, partLeft) := takeWord n part
  let power := power + wholeLeft.length + partLeft.length - part.length
  let x ← timesPower? 4 (.ofQuotient false n 1) power
  return { x with negative }

end Lineage.Json
