import Lineage.Settings.Entry
import Lineage.Text.Hex

/-!
# Numbers in TOML

An integer is a signed word, in decimal or, without a sign, in hexadecimal, octal
or binary. A number with a fraction or an exponent is rounded to a binary
floating-point number. Underscores may stand between digits.
-/

namespace Lineage.Toml

/-- Digits without the underscores between them; each must stand between two
    digits. -/
def ungroup? (isDigit : Char → Bool) : List Char → Option (List Char)
  | [] => none
  | [c] => if isDigit c then some [c] else none
  | c :: '_' :: s => if isDigit c then (ungroup? isDigit s).map (c :: ·) else none
  | c :: s => if isDigit c then (ungroup? isDigit s).map (c :: ·) else none

/-- The digits of a number before its point, of which the first is no zero unless
    it stands alone. -/
def whole? (s : List Char) : Option (List Char) := do
  match (← ungroup? Char.isDigit s) with
  | '0' :: _ :: _ => none
  | digits => return digits

/-- Whether a number is negative, and what follows its sign. -/
def sign : List Char → Bool × List Char
  | '-' :: s => (true, s)
  | '+' :: s => (false, s)
  | s => (false, s)

/-- A number with the mark of its base. -/
def based? : List Char → Option Nat
  | '0' :: 'x' :: s =>
    (ungroup? (fun c => (Text.hexDigit? c).isSome) s).bind Text.hexNumber?
  | '0' :: 'o' :: s =>
    (ungroup? (fun c => '0' ≤ c ∧ c ≤ '7') s).map fun digits => Nat.ofDigitChars 8 digits 0
  | '0' :: 'b' :: s =>
    (ungroup? (fun c => c = '0' ∨ c = '1') s).map fun digits => Nat.ofDigitChars 2 digits 0
  | _ => none

/-- The integer that a text is. -/
def integer? (s : List Char) : Option Int :=
  match based? s with
  | some n => Word.signed? n
  | none => do
    let (negative, s) := sign s
    let magnitude : Int := Decimal.ofDigits (← whole? s)
    Word.signed? (if negative then -magnitude else magnitude)

/-- The mark of an exponent. -/
def isExponentMark (c : Char) : Bool := c = 'e' || c = 'E'

/-- The exponent after its mark. -/
def exponent? (s : List Char) : Option Int := do
  let (negative, s) := sign s
  let magnitude : Int := Decimal.ofDigits (← ungroup? Char.isDigit s)
  return if negative then -magnitude else magnitude

/-- The number with a fraction or an exponent that a text is. -/
def decimal? (s : List Char) : Option Decimal := do
  let (negative, s) := sign s
  let mantissa := s.takeWhile (!isExponentMark ·)
  let whole ← whole? (mantissa.takeWhile (· ≠ '.'))
  match mantissa.dropWhile (· ≠ '.'), s.dropWhile (!isExponentMark ·) with
  | [], [] => none
  | [], _ :: power => return ⟨negative, Decimal.ofDigits whole, ← exponent? power⟩
  | _ :: part, power =>
    let part ← ungroup? Char.isDigit part
    let shift ← match power with
      | [] => some 0
      | _ :: power => exponent? power
    return ⟨negative, Decimal.ofDigits (whole ++ part), shift - part.length⟩

/-- The number that a text is. None is too large. -/
def number? (s : List Char) : Option Entry :=
  match integer? s with
  | some i => some (.int i)
  | none =>
    match sign s with
    | (negative, ['i', 'n', 'f']) => some (.infinite negative)
    | (_, ['n', 'a', 'n']) => some .notANumber
    | _ => ((decimal? s).bind Binary.ofDecimal?).map .real

end Lineage.Toml
