import Lineage.Decimal.Basic
import Lineage.Word

/-!
# Paths into configurations

A key of a configuration may be a path into tables and lists, such as
`query.causality` or `names[0]`: a name, and steps that lead on from there. What
is no path is a plain key.
-/

namespace Lineage

/-- A step of a path. -/
inductive Path.Step where
  | key (name : String)
  /-- An item of a list, counted from the end of the list if negative. -/
  | item (index : Int)
deriving Repr, DecidableEq

/-- A path into a configuration. -/
structure Path where
  name : String
  steps : List Path.Step
deriving Repr, DecidableEq

namespace Path

/-- A character of a name in a path. -/
def isNameChar (c : Char) : Bool := c.isAlphanum || c = '-' || c = '_'

/-- The space and the tab. -/
def isBlank (c : Char) : Bool := c = ' ' || c = '\t'

/-- The signed word that a text begins with, and the text after it. -/
def index? (s : List Char) : Option (Int × List Char) :=
  let (negative, s) := match s with
    | '-' :: s => (true, s)
    | s => (false, s)
  let digits := s.takeWhile Char.isDigit
  if digits.isEmpty then none
  else
    let magnitude : Int := Decimal.ofDigits digits
    (Word.signed? (if negative then -magnitude else magnitude)).map
      (·, s.dropWhile Char.isDigit)

/-- The steps after the name. Blanks may stand around an index. -/
def steps? : Nat → List Char → Option (List Step)
  | _, [] => some []
  | 0, _ => none
  | fuel + 1, '.' :: s =>
    let name := s.takeWhile isNameChar
    if name.isEmpty then none
    else (steps? fuel (s.dropWhile isNameChar)).map (.key (String.ofList name) :: ·)
  | fuel + 1, '[' :: s => do
    let (index, s) ← index? (s.dropWhile isBlank)
    match s.dropWhile isBlank with
    | ']' :: s => (steps? fuel s).map (.item index :: ·)
    | _ => none
  | _, _ => none

/-- The path that a key is. -/
def read? (key : String) : Option Path :=
  let s := key.toList
  let name := s.takeWhile isNameChar
  if name.isEmpty then none
  else (steps? s.length (s.dropWhile isNameChar)).map fun steps => ⟨String.ofList name, steps⟩

end Path

end Lineage
