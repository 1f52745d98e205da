import Lineage.Decimal.Basic

/-!
# Dates and times in TOML

A date, a time, or both with maybe an offset from universal time. Only their
texts matter here; they are valid, and written in one way. The seconds of a time
may be left out.

Each reader takes the text and gives what it read with the rest.
-/

namespace Lineage.Toml

/-- The number in two digits, if it lies between two others. -/
def pair? (least greatest : Nat) (tens ones : Char) : Option Nat :=
  let n := Decimal.ofDigits [tens, ones]
  if tens.isDigit && ones.isDigit && least ≤ n && n ≤ greatest then some n else none

/-- The number of days in a month. -/
def daysIn (year month : Nat) : Nat :=
  if month = 2 then
    if year % 4 = 0 ∧ (year % 100 ≠ 0 ∨ year % 400 = 0) then 29 else 28
  else if month = 4 ∨ month = 6 ∨ month = 9 ∨ month = 11 then 30
  else 31

/-- A date: year, month and day. -/
def date? : List Char → Option (List Char × List Char)
  | a :: b :: c :: d :: '-' :: m :: n :: '-' :: x :: y :: s => do
    let century ← pair? 0 99 a b
    let year ← pair? 0 99 c d
    let month ← pair? 1 12 m n
    let _ ← pair? 1 (daysIn (century * 100 + year) month) x y
    return ([a, b, c, d, '-', m, n, '-', x, y], s)
  | _ => none

/-- A list without the zeros at its end. -/
def dropFinalZeros (digits : List Char) : List Char :=
  (digits.reverse.dropWhile (· = '0')).reverse

/-- The fraction of a second, of which nine digits count; at least one is
    written. -/
def fraction? : List Char → Option (List Char × List Char)
  | '.' :: s =>
    let digits := s.takeWhile Char.isDigit
    let counted := dropFinalZeros (digits.take 9)
    if digits.isEmpty then none
    else some ('.' :: (if counted.isEmpty then ['0'] else counted), s.dropWhile Char.isDigit)
  | s => some ([], s)

/-- The seconds of a time, if it has them: a second, which may be a leap second,
    and maybe a fraction. -/
def seconds? : List Char → Option (List Char × List Char)
  | ':' :: a :: b :: s => do
    let _ ← pair? 0 60 a b
    let (part, s) ← fraction? s
    return (':' :: a :: b :: part, s)
  | s => some ([], s)

/-- A time: hour, minute and maybe seconds. -/
def time? : List Char → Option (List Char × List Char)
  | a :: b :: ':' :: c :: d :: s => do
    let _ ← pair? 0 23 a b
    let _ ← pair? 0 59 c d
    let (seconds, s) ← seconds? s
    return ([a, b, ':', c, d] ++ seconds, s)
  | _ => none

/-- An offset, which ends the text. -/
def offset? : List Char → Option (List Char)
  | [] => some []
  | [z] => if z = 'Z' ∨ z = 'z' then some ['Z'] else none
  | [direction, a, b, ':', c, d] => do
    let hours ← pair? 0 23 a b
    let minutes ← pair? 0 59 c d
    if direction = '+' ∨ direction = '-' ∧ hours + minutes = 0 then
      return ['+', a, b, ':', c, d]
    else if direction = '-' then return ['-', a, b, ':', c, d]
    else none
  | _ => none

/-- The date, the time or both that a text is. -/
def dateTime? (s : List Char) : Option (List Char) :=
  match date? s with
  | some (date, []) => some date
  | some (date, c :: s) => do
    if c = 'T' ∨ c = 't' ∨ c = ' ' then
      let (time, s) ← time? s
      return date ++ 'T' :: time ++ (← offset? s)
    else none
  | none =>
    match time? s with
    | some (time, []) => some time
    | _ => none

end Lineage.Toml
