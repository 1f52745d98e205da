/-!
# Spans of code points

Sets of characters as spans of code points, each given by its first and its
last. The spans of a set ascend, with a gap between any two; a character is
looked up by halving.
-/

namespace Lineage.Text

/-- The code points from the first to the second. -/
abbrev Span := Nat × Nat

/-- Spans of code points in ascending order, with gaps between them. -/
abbrev Spans := Array Span

namespace Spans

/-- `n` lies in one of the spans from number `lo` on, up to but not including
    number `hi`. -/
def searchBetween (t : Spans) (n lo hi : Nat) : Bool :=
  if _h : lo < hi then
    let mid := (lo + hi) / 2
    match t[mid]? with
    | some (first, last) =>
      if n < first then searchBetween t n lo mid
      else if last < n then searchBetween t n (mid + 1) hi
      else true
    | none => false
  else false
termination_by hi - lo
decreasing_by all_goals omega

/-- The character lies in one of the spans. -/
def contains (t : Spans) (c : Char) : Bool := searchBetween t c.toNat 0 t.size

/-! ### Making sets -/

/-- Spans in descending order with one more, which begins after none of them: it
    is joined to the first if it meets or touches it. -/
def join : List Span → Span → List Span
  | (first, last) :: t, s =>
    if s.1 ≤ last + 1 then (first, max last s.2) :: t else s :: (first, last) :: t
  | [], s => [s]

/-- The set of what lies in any of several spans. -/
def ofList (spans : List Span) : Spans :=
  ((spans.mergeSort fun s t => s.1 ≤ t.1).foldl join []).reverse.toArray

/-- The set of one character. -/
def single (c : Char) : Spans := #[(c.toNat, c.toNat)]

/-- The characters of either of two sets. -/
def union (t u : Spans) : Spans := ofList (t.toList ++ u.toList)

/-- The greatest code point. -/
def greatest : Nat := 0x10FFFF

/-- The code points from `start` on between spans and after them. -/
def gaps (start : Nat) : List Span → List Span
  | [] => if start ≤ greatest then [(start, greatest)] else []
  | (first, last) :: t =>
    if start < first then (start, first - 1) :: gaps (last + 1) t else gaps (last + 1) t

/-- The code points of surrogates, which are no characters. -/
def surrogates : Span := (0xD800, 0xDFFF)

/-- All other characters. -/
def compl (t : Spans) : Spans := (gaps 0 (ofList (surrogates :: t.toList)).toList).toArray

/-- The characters in both of two sets. -/
def inter (t u : Spans) : Spans := compl (union (compl t) (compl u))

/-- The characters of the first of two sets that are not in the second. -/
def diff (t u : Spans) : Spans := inter t (compl u)

/-- The characters in one of two sets but not in the other. -/
def symmDiff (t u : Spans) : Spans := union (diff t u) (diff u t)

/-- All characters of the set lie below `U+0080`. -/
def isPlain (t : Spans) : Bool := t.all fun (_, last) => last < 0x80

end Spans

end Lineage.Text
