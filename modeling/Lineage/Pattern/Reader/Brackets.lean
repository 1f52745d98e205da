import Lineage.Pattern.Reader.Atom

/-!
# Reading patterns: brackets

A set between brackets: characters, spans, classes and sets in brackets, side by
side for their union, with the operators `&&`, `--` and `~~` between unions for
intersection, difference and symmetric difference, all to the left. A caret
after the opening bracket is for all other characters. A closing bracket or
hyphens that come first stand for themselves.

Readers also give the height of what they read: how deeply it nests.
-/

namespace Lineage.Pattern

/-- An operator between sets. -/
inductive SetOp where
  | inter
  | diff
  | symmDiff
deriving Repr, DecidableEq

/-- The set that an operator makes. -/
def SetOp.apply : SetOp → CharSet → CharSet → CharSet
  | inter => Text.Spans.inter
  | diff => Text.Spans.diff
  | symmDiff => Text.Spans.symmDiff

/-- A set in a pattern, and how deeply it nests. -/
structure SetItem where
  set : CharSet
  height : Nat

namespace SetItem

/-- The union of items; several nest one level deeper than the deepest. -/
def union (items : List SetItem) : SetItem :=
  match items with
  | [item] => item
  | [] => ⟨.empty, 0⟩
  | _ => ⟨.ofList (items.map SetItem.set), (items.map SetItem.height).foldl max 0 + 1⟩

/-- The left side of an operator, and the operator, together with the right
    side. -/
def combine (flags : Flags) : Option (SetItem × SetOp) → SetItem → SetItem
  | none, right => right
  | some (left, op), right =>
    ⟨op.apply (Reader.foldIf flags left.set) (Reader.foldIf flags right.set),
      max left.height right.height + 1⟩

end SetItem

namespace Reader

/-- The set itself or, if negated, its complement. Without the characters of
    all scripts there is no complement. -/
def negateIf (negated : Bool) (a : CharSet) : Reader CharSet := do
  if !negated then return a
  else if (← flags).allScripts then return a.compl
  else failure

/-- A class of plain characters such as `[:alpha:]`, from after its opening
    bracket, and the text after it. -/
def namedClass? (s : List Char) : Option (Bool × CharSet × List Char) := do
  let ':' :: s := s | none
  let (negated, s) := match s with
    | '^' :: s => (true, s)
    | s => (false, s)
  let name := s.takeWhile (· != ':')
  let ':' :: ']' :: s := s.dropWhile (· != ':') | none
  return (negated, ← CharSet.named? name, s)

/-- An atom between brackets. -/
def setAtom : Reader Atom := do
  let c :: s ← rest | failure
  match c with
  | '\\' => escape s
  | c => do
    leave s
    return .char c

/-- The set of characters from one to another. Without the characters of all scripts
    both are plain. -/
def setSpan (first last : Char) : Reader CharSet := do
  let a := CharSet.span first last
  if first ≤ last && (a.isPlain || (← flags).allScripts) then return a else failure

/-- An atom between brackets, or a span of two. -/
def setRange : Reader CharSet := do
  let first ← setAtom
  skipBlank
  let c :: s ← rest | failure
  let after ← peekBlank
  if c != '-' || after == some ']' || after == some '-' then
    match first with
    | .char c => setSpan c c
    | .set a => return a
    | _ => failure
  else do
    leaveMore s
    let last ← setAtom
    match first, last with
    | .char first, .char last => setSpan first last
    | _, _ => failure

/-- The hyphens after the opening bracket. -/
def leadingHyphens : Nat → Reader (List SetItem)
  | 0 => failure
  | fuel + 1 => do
    match (← rest) with
    | '-' :: s => do
      leaveMore s
      return ⟨.single '-', 0⟩ :: (← leadingHyphens fuel)
    | _ => return []

/-- The operator at the start of a text, and the text after it. -/
def setOp? : List Char → Option (SetOp × List Char)
  | '&' :: '&' :: s => some (.inter, s)
  | '-' :: '-' :: s => some (.diff, s)
  | '~' :: '~' :: s => some (.symmDiff, s)
  | _ => none

mutual

/-- A set between brackets, from after the opening one. -/
def brackets : Nat → List Char → Reader SetItem
  | 0, _ => failure
  | fuel + 1, s => do
    leaveMore s
    let negated ← match (← rest) with
      | '^' :: s => do
        leaveMore s
        pure true
      | _ => pure false
    let hyphens ← leadingHyphens fuel
    let items ← match hyphens, (← rest) with
      | [], ']' :: s => do
        leaveMore s
        pure [⟨.single ']', 0⟩]
      | items, _ => pure items
    let item ← bracketItems fuel none items.reverse
    let set ← negateIf negated (foldIf (← flags) item.set)
    return ⟨set, item.height + 1⟩

/-- The items up to the closing bracket, after `items`, the last of them first,
    and after the left side of an operator if there is one. -/
def bracketItems : Nat → Option (SetItem × SetOp) → List SetItem → Reader SetItem
  | 0, _, _ => failure
  | fuel + 1, left, items => do
    skipBlank
    let s ← rest
    match s, setOp? s with
    | _, some (op, s) => do
      leave s
      let item := SetItem.combine (← flags) left (.union items.reverse)
      bracketItems fuel (some (item, op)) []
    | ']' :: s, _ => do
      leave s
      return SetItem.combine (← flags) left (.union items.reverse)
    | '[' :: s, _ =>
      match namedClass? s with
      | some (negated, a, s) => do
        leave s
        let set ← negateIf negated (foldIf (← flags) a)
        bracketItems fuel left (⟨set, 0⟩ :: items)
      | none => do
        let item ← brackets fuel s
        bracketItems fuel left (item :: items)
    | _, _ => do
      let set ← setRange
      bracketItems fuel left (⟨set, 0⟩ :: items)

end

end Reader

end Lineage.Pattern
