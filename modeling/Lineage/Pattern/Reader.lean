import Lineage.Pattern.Reader.Brackets

/-!
# Reading patterns

A pattern is alternatives between bars, each a sequence of atoms, sets in
brackets, groups and repetitions of what precedes them. `(?i)` puts flags in
force up to the end of the group around it, and `(?i:…)` for one group.

Look-around, references back to groups, and whatever has no meaning are refused;
so is a pattern that nests too deeply. `fuel` bounds the calls of readers, and
the length of the text is more than they need.
-/

namespace Lineage.Pattern

/-- What a pattern says, and how deeply it nests. -/
structure ExprItem where
  expr : Expr
  height : Nat

namespace ExprItem

/-- The sequence of items; several nest one level deeper than the deepest. -/
def seq (items : List ExprItem) : ExprItem :=
  match items with
  | [item] => item
  | [] => ⟨.empty, 0⟩
  | _ => ⟨.concat (items.map ExprItem.expr), (items.map ExprItem.height).foldl max 0 + 1⟩

/-- The alternatives; several nest one level deeper than the deepest. -/
def alt (items : List ExprItem) : ExprItem :=
  match items with
  | [item] => item
  | [] => ⟨.empty, 0⟩
  | _ => ⟨.union (items.map ExprItem.expr), (items.map ExprItem.height).foldl max 0 + 1⟩

end ExprItem

/-- One of a sequence: flags put in force can not be repeated. -/
inductive Piece where
  | flags
  | item (e : ExprItem)

/-- What a piece says. -/
def Piece.toItem : Piece → ExprItem
  | flags => ⟨.empty, 0⟩
  | item e => e

/-- The sequence of pieces, the last of them first. -/
def Piece.toSeq (pieces : List Piece) : ExprItem := .seq (pieces.reverse.map Piece.toItem)

namespace Reader

/-! ### Flags -/

/-- A flag, or the hyphen before flags that are taken back. -/
inductive FlagMark where
  | flag (letter : Char)
  | hyphen
deriving Repr, DecidableEq

/-- The flags with one put in force, or taken back. -/
def setFlag (on : Bool) (flags : Flags) (letter : Char) : Flags :=
  match letter with
  | 'i' => { flags with ignoreCase := on }
  | 'm' => { flags with multiLine := on }
  | 's' => { flags with dotAll := on }
  | 'U' => { flags with swapGreed := on }
  | 'u' => { flags with allScripts := on }
  | 'R' => { flags with returns := on }
  | 'x' => { flags with verbose := on }
  | _ => flags

/-- The flags after those that marks put in force or, after a hyphen, take
    back. -/
def applyMarks (on : Bool) : List FlagMark → Flags → Flags
  | [], flags => flags
  | .flag letter :: marks, flags => applyMarks on marks (setFlag on flags letter)
  | .hyphen :: marks, flags => applyMarks false marks flags

/-- The marks up to the colon or parenthesis after them, and the text from
    there; none is repeated. -/
def flagMarks : List FlagMark → List Char → Option (List FlagMark × List Char)
  | _, [] => none
  | marks, c :: s =>
    if c = ':' ∨ c = ')' then
      if marks.head? = some .hyphen then none else some (marks.reverse, c :: s)
    else
      let mark := if c = '-' then FlagMark.hyphen else .flag c
      if mark ∈ marks then none
      else if c ∈ ['-', 'i', 'm', 's', 'U', 'u', 'R', 'x'] then flagMarks (mark :: marks) s
      else none

/-! ### Groups -/

/-- The name of a group, from after the opening angle bracket, and the text
    after the closing one. -/
def groupName (s : List Char) : Reader Unit := do
  let name := s.takeWhile (· != '>')
  let '>' :: s := s.dropWhile (· != '>') | failure
  let c :: cs := name | failure
  let cursor ← get
  if (c == '_' || Text.isLetter c) &&
      cs.all (fun c => c == '_' || c == '.' || c == '[' || c == ']' || Text.isAlphanumeric c) &&
      !cursor.names.contains name then
    set { cursor with rest := s, names := name :: cursor.names }
  else failure

/-- How a group begins. -/
inductive Opening where
  /-- Flags alone, in force from here on. -/
  | flags (flags : Flags)
  /-- A group with the given flags. -/
  | group (captures : Bool) (flags : Flags)

/-- The opening of a group, from after the parenthesis. -/
def opening : Reader Opening := do
  skipBlank
  let flags ← flags
  match (← rest) with
  | '?' :: '=' :: _ | '?' :: '!' :: _ | '?' :: '<' :: '=' :: _ | '?' :: '<' :: '!' :: _ => failure
  | '?' :: 'P' :: '<' :: s | '?' :: '<' :: s => do
    groupName s
    return .group true flags
  | '?' :: s =>
    match flagMarks [] s with
    | some (marks, ':' :: s) => do
      leave s
      return .group false (applyMarks true marks flags)
    | some (marks, _ :: s) =>
      if marks.isEmpty then failure
      else do
        leave s
        return .flags (applyMarks true marks flags)
    | _ => failure
  | _ => return .group true flags

/-! ### Repetitions -/

/-- The bounds between braces, from after the opening one. -/
def repetitionBounds (s : List Char) : Reader (Nat × Option Nat) := do
  leaveMore s
  let some least ← count? | failure
  let most ← match (← rest) with
    | ',' :: s => do
      leaveMore s
      match (← rest) with
      | '\x7d' :: _ => pure none
      | _ => do
        let some most ← count? | failure
        pure (some most)
    | _ => pure (some least)
  let '\x7d' :: s ← rest | failure
  leave s
  if most.any (· < least) then failure
  return (least, most)

/-- The repetition is greedy: no question mark follows it, or one does and the
    flags swap the two. -/
def greed : Reader Bool := do
  let swap := (← flags).swapGreed
  match (← rest) with
  | '?' :: s => do
    leave s
    return swap
  | _ => return !swap

/-- The last piece repeated, in front of those before it. -/
def repeatLast (least : Nat) (most : Option Nat) : List Piece → Reader (List Piece)
  | .item e :: pieces => do
    let greedy ← greed
    return .item ⟨e.expr.times least most greedy, e.height + 1⟩ :: pieces
  | _ => failure

/-! ### Alternatives -/

mutual

/-- Alternatives up to a closing parenthesis or the end. -/
def alternatives : Nat → Reader (List ExprItem)
  | 0 => failure
  | fuel + 1 => do
    let item ← sequence fuel []
    match (← rest) with
    | '|' :: s => do
      leave s
      return item :: (← alternatives fuel)
    | _ => return [item]

/-- A sequence up to a bar, a closing parenthesis or the end, after `pieces`,
    the last of them first. -/
def sequence : Nat → List Piece → Reader ExprItem
  | 0, _ => failure
  | fuel + 1, pieces => do
    skipBlank
    match (← rest) with
    | [] | ')' :: _ | '|' :: _ => return Piece.toSeq pieces
    | '(' :: s => do
      leave s
      match (← opening) with
      | .flags flags => do
        setFlags flags
        sequence fuel (.flags :: pieces)
      | .group captures inner => do
        let outer ← flags
        setFlags inner
        let item := ExprItem.alt (← alternatives fuel)
        let ')' :: s ← rest | failure
        leave s
        setFlags outer
        let e := if captures then .group item.expr else item.expr
        sequence fuel (.item ⟨e, item.height + 1⟩ :: pieces)
    | '[' :: s => do
      let item ← brackets fuel s
      sequence fuel (.item ⟨.ofSet item.set, item.height⟩ :: pieces)
    | '?' :: s => do
      leave s
      sequence fuel (← repeatLast 0 (some 1) pieces)
    | '*' :: s => do
      leave s
      sequence fuel (← repeatLast 0 none pieces)
    | '+' :: s => do
      leave s
      sequence fuel (← repeatLast 1 none pieces)
    | '\x7b' :: s => do
      let (least, most) ← repetitionBounds s
      skipBlank
      sequence fuel (← repeatLast least most pieces)
    | _ => do
      let e ← exprOf (← atom)
      sequence fuel (.item ⟨e, 0⟩ :: pieces)

end

end Reader

/-- What a pattern says, with nothing left over. -/
def Expr.read (source : List Char) : Option Expr := do
  let (items, cursor) ← (Reader.alternatives (2 * source.length + 2)).run ⟨source, {}, []⟩
  let item := ExprItem.alt items
  if cursor.rest.isEmpty && decide (item.height ≤ Expr.maxHeight) then some item.expr else none

end Lineage.Pattern
