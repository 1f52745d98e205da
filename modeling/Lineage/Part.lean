import Lineage.Range.Arithmetic
import Lineage.Decimal.Basic
import Lineage.Text.Class

/-!
# Parts

A part is one step into what a function handles: the whole, a range of
characters of a string, an element of a list, or an input or output pin. It is
printed as `*`, `I1-3` (or `I2` for a single position), `#4`, `in0`, or `out0`.

Reading accepts white space around a part, leading zeros, and `I2-2`. A number
is a run of decimal digits of any script, but only one in plain digits and
within a word has a value.
-/

namespace Lineage

/-- One step into what a function handles. -/
inductive Part where
  /-- The whole. -/
  | identity
  /-- The characters at the positions of a range. -/
  | range (r : Range)
  /-- The element with the given number, from zero on. -/
  | element (n : Nat)
  /-- The input pin with the given number. -/
  | input (n : Nat)
  /-- The output pin with the given number. -/
  | output (n : Nat)
deriving Repr, DecidableEq

/-- What a part is applied to. -/
inductive Target where
  | value (v : Value)
  | function
deriving Repr, DecidableEq

namespace Part

/-- The part is a step into the target. -/
def appliesTo : Part → Target → Bool
  | identity, _ => true
  | range _, .value (.str _) => true
  | element _, .value (.list _) => true
  | input _, .function => true
  | output _, .function => true
  | _, _ => false

def isRange : Part → Bool
  | range _ => true
  | _ => false

/-- The range of a part that is one. -/
def range? : Part → Option Range
  | range r => some r
  | _ => none

/-- The numbers in the part are words. -/
def Bounded : Part → Prop
  | identity => True
  | range r => r.Bounded
  | element n => Word.Unsigned n
  | input n => Word.Unsigned n
  | output n => Word.Unsigned n

instance : DecidablePred Bounded
  | identity => inferInstanceAs (Decidable True)
  | range r => inferInstanceAs (Decidable r.Bounded)
  | element n => inferInstanceAs (Decidable (Word.Unsigned n))
  | input n => inferInstanceAs (Decidable (Word.Unsigned n))
  | output n => inferInstanceAs (Decidable (Word.Unsigned n))

/-- The printed form. -/
def text : Part → String
  | identity => "*"
  | range r => r.text
  | element n => s!"#{n}"
  | input n => s!"in{n}"
  | output n => s!"out{n}"

/-! ### Reading -/

/-- A number: an optional sign and at least one digit. -/
structure Numeral where
  negative : Bool
  digits : List Char
deriving Repr, DecidableEq

namespace Numeral

/-- The number as it is written. -/
def chars (n : Numeral) : List Char := if n.negative then '-' :: n.digits else n.digits

/-- The digits at the start of a text, if there are any, and the rest. -/
def unsigned? (negative : Bool) (s : List Char) : Option (Numeral × List Char) :=
  let digits := s.takeWhile Text.isDecimalDigit
  if digits.isEmpty then none else some (⟨negative, digits⟩, s.dropWhile Text.isDecimalDigit)

/-- The number at the start of a text, if there is one, and the rest. -/
def signed? : List Char → Option (Numeral × List Char)
  | '-' :: s => unsigned? true s
  | s => unsigned? false s

/-- The value of a number in plain digits. -/
def value? (n : Numeral) : Option Int :=
  if n.digits.all Char.isDigit then
    let magnitude : Int := Decimal.ofDigits n.digits
    some (if n.negative then -magnitude else magnitude)
  else none

/-- A number without a value that is a word. -/
def invalid (n : Numeral) : Error := .read (.invalidIndex (String.ofList n.chars))

/-- The position that a number gives. -/
def position (n : Numeral) : Except Error Int :=
  match n.value?.bind Word.signed? with
  | some i => .ok i
  | none => .error n.invalid

/-- The index that a number without a sign gives. -/
def index (n : Numeral) : Except Error Nat :=
  match n.value?.bind fun i => Word.unsigned? i.toNat with
  | some k => .ok k
  | none => .error n.invalid

end Numeral

/-- What a part looks like before its numbers are evaluated. -/
inductive Shape where
  | identity
  | range (start : Numeral) (stop : Option Numeral)
  | element (n : Numeral)
  | input (n : Numeral)
  | output (n : Numeral)
deriving Repr, DecidableEq

/-- The number that makes up a whole text. -/
def wholeIndex (s : List Char) : Option Numeral :=
  match Numeral.unsigned? false s with
  | some (n, []) => some n
  | _ => none

/-- The shape of a part from its text without white space around it. -/
def shape? : List Char → Option Shape
  | ['*'] => some .identity
  | 'I' :: s =>
    match Numeral.signed? s with
    | some (start, []) => some (.range start none)
    | some (start, '-' :: s) =>
      match Numeral.signed? s with
      | some (stop, []) => some (.range start (some stop))
      | _ => none
    | _ => none
  | '#' :: s => (wholeIndex s).map .element
  | 'i' :: 'n' :: s => (wholeIndex s).map .input
  | 'o' :: 'u' :: 't' :: s => (wholeIndex s).map .output
  | _ => none

/-- The part with a given shape: its numbers are evaluated in order. -/
def ofShape : Shape → Except Error Part
  | .identity => .ok .identity
  | .range start none => do
    let p ← start.position
    return .range (Range.single p)
  | .range start (some stop) => do
    let p ← start.position
    let q ← stop.position
    return .range (← Range.ofEnds p q)
  | .element n => return .element (← n.index)
  | .input n => return .input (← n.index)
  | .output n => return .output (← n.index)

/-- The part that a text denotes. -/
def ofChars (s : List Char) : Except Error Part :=
  match shape? (Text.trim s) with
  | some shape => ofShape shape
  | none => .error (.read (.unknownPart (String.ofList s)))

/-- The part that a text denotes. -/
def read (s : String) : Except Error Part := ofChars s.toList

end Part

end Lineage
