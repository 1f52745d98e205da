import Lineage.Text.Class
import Lineage.Text.Folding

/-!
# Sets of characters

What a pattern may ask of a single character: to be one of a set. Patterns have
names for some sets, most of them of plain characters, those below `U+0080`.
-/

namespace Lineage.Pattern

/-- A set of characters. -/
abbrev CharSet := Text.Spans

namespace CharSet

/-- The set of no character. -/
def empty : CharSet := #[]

/-- The set of all characters. -/
def all : CharSet := Text.Spans.compl empty

/-- The characters from `first` to `last`. -/
def span (first last : Char) : CharSet := #[(first.toNat, last.toNat)]

/-- The characters of several sets. -/
def ofList (as : List CharSet) : CharSet :=
  Text.Spans.ofList (as.flatMap fun a => a.toList)

/-- All characters but the given ones. -/
def allBut (cs : List Char) : CharSet := (ofList (cs.map Text.Spans.single)).compl

/-- The characters of words. -/
def word : CharSet := Text.words

/-- The decimal digits. -/
def digit : CharSet := Text.decimalDigits

/-- White space. -/
def space : CharSet := Text.Spans.ofList Text.blanks

/-! ### Plain characters -/

def plainDigit : CharSet := span '0' '9'

def plainUpper : CharSet := span 'A' 'Z'

def plainLower : CharSet := span 'a' 'z'

def plainAlpha : CharSet := ofList [plainUpper, plainLower]

def plainAlnum : CharSet := ofList [plainDigit, plainAlpha]

def plainWord : CharSet := ofList [plainAlnum, span '_' '_']

def plainSpace : CharSet := ofList [span '\t' '\r', span ' ' ' ']

/-- The class that a name between `[:` and `:]` stands for. -/
def named? (name : List Char) : Option CharSet :=
  match String.ofList name with
  | "alnum" => some plainAlnum
  | "alpha" => some plainAlpha
  | "ascii" => some (span '\x00' '\x7f')
  | "blank" => some (ofList [span '\t' '\t', span ' ' ' '])
  | "cntrl" => some (ofList [span '\x00' '\x1f', span '\x7f' '\x7f'])
  | "digit" => some plainDigit
  | "graph" => some (span '!' '~')
  | "lower" => some plainLower
  | "print" => some (span ' ' '~')
  | "punct" => some (ofList [span '!' '/', span ':' '@', span '[' '\x60', span '\x7b' '~'])
  | "space" => some plainSpace
  | "upper" => some plainUpper
  | "word" => some plainWord
  | "xdigit" => some (ofList [plainDigit, span 'A' 'F', span 'a' 'f'])
  | _ => none

/-- The set with the plain letters of either case, for a set of plain
    characters. -/
def foldPlain (a : CharSet) : CharSet :=
  let moved (s : Text.Span) (letters : CharSet) (shift : Int) : List Text.Span :=
    letters.toList.filterMap fun l =>
      let first := max s.1 l.1
      let last := min s.2 l.2
      if first ≤ last then some ((first + shift).toNat, (last + shift).toNat) else none
  Text.Spans.ofList <|
    a.toList ++ a.toList.flatMap fun s => moved s plainUpper 32 ++ moved s plainLower (-32)

end CharSet

end Lineage.Pattern
