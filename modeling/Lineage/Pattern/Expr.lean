import Lineage.Pattern.CharSet

/-!
# Pattern expressions

What a pattern says, without the spelling: texts, single characters, assertions
about a place in the text, sequences, alternatives, and repetitions. Of two ways
to match, the one that comes first counts: an earlier alternative before a later
one, and one more repetition before one less, or the other way round if the
repetition is lazy.

Expressions are made by `ofSet`, `times`, `concat` and `union`, which leave out
what makes no difference, so that a pattern takes no more room than it needs.
-/

namespace Lineage.Pattern

/-- Where a place stands to the words around it. -/
inductive WordEdge where
  /-- A word begins or ends here. -/
  | boundary
  /-- No word begins or ends here. -/
  | inside
  | start
  | stop
  /-- No character of a word comes before. -/
  | startHalf
  /-- No character of a word comes after. -/
  | stopHalf
deriving Repr, DecidableEq

/-- An assertion about a place in a text. -/
inductive Look where
  | textStart
  | textEnd
  | lineStart
  | lineEnd
  /-- As `lineStart`, where a carriage return ends a line as well. -/
  | returnLineStart
  /-- As `lineEnd`, where a carriage return ends a line as well. -/
  | returnLineEnd
  /-- About words, of plain characters only if `plain`. -/
  | word (edge : WordEdge) (plain : Bool)
deriving Repr, DecidableEq

/-- A pattern expression. -/
inductive Expr where
  /-- The empty text. -/
  | empty
  /-- A text of at least one character. -/
  | literal (cs : List Char)
  /-- One character of a set. -/
  | one (set : CharSet)
  | look (l : Look)
  /-- A group that captures. -/
  | group (e : Expr)
  /-- At least two expressions, none of them empty or a sequence. -/
  | seq (es : List Expr)
  /-- At least two alternatives. -/
  | alt (es : List Expr)
  /-- At least `least` and at most `most` repetitions; as many as possible if
      greedy, as few as possible if not. -/
  | repeated (e : Expr) (least : Nat) (most : Option Nat) (greedy : Bool)
deriving Repr

namespace Expr

/-! ### Properties -/

mutual

/-- The expression matches nothing but the empty text. -/
def onlyEmpty : Expr → Bool
  | empty => true
  | literal _ => false
  | one _ => false
  | look _ => true
  | group e => onlyEmpty e
  | seq es => allOnlyEmpty es
  | alt es => allOnlyEmpty es
  | repeated e _ _ _ => onlyEmpty e

/-- `onlyEmpty`, for all of several expressions. -/
def allOnlyEmpty : List Expr → Bool
  | [] => true
  | e :: es => onlyEmpty e && allOnlyEmpty es

end

mutual

/-- Whether every match takes a character. It is not asked of expressions in which
    a set has no character. -/
def consumes? : Expr → Option Bool
  | empty => some false
  | literal _ => some true
  | one set => if set.isEmpty then none else some true
  | look _ => some false
  | group e => consumes? e
  | seq es => anyConsumes? es
  | alt es => allConsume? es
  | repeated e least _ _ => (consumes? e).map (decide (0 < least) && ·)

/-- `consumes?`, for one of several expressions. -/
def anyConsumes? : List Expr → Option Bool
  | [] => some false
  | e :: es => do
    let first ← consumes? e
    let further ← anyConsumes? es
    return first || further

/-- `consumes?`, for all of several expressions. -/
def allConsume? : List Expr → Option Bool
  | [] => some true
  | e :: es => do
    let first ← consumes? e
    let further ← allConsume? es
    return first && further

end

/-- The expression does not match the empty text. -/
def consumes (e : Expr) : Bool := e.consumes? = some true

mutual

/-- Every match begins where the assertion holds, as the expression says. -/
def beginsWith (l : Look) : Expr → Bool
  | look k => k = l
  | group e => beginsWith l e
  | seq es => sequenceBeginsWith l es
  | alt es => allBeginWith l es
  | repeated e least _ _ => decide (0 < least) && beginsWith l e
  | _ => false

/-- `beginsWith`, for a sequence. -/
def sequenceBeginsWith (l : Look) : List Expr → Bool
  | [] => false
  | e :: es => beginsWith l e || onlyEmpty e && sequenceBeginsWith l es

/-- `beginsWith`, for all of several expressions. -/
def allBeginWith (l : Look) : List Expr → Bool
  | [] => true
  | e :: es => beginsWith l e && allBeginWith l es

end

mutual

/-- Every match ends where the assertion holds, as the expression says. -/
def endsWith (l : Look) : Expr → Bool
  | look k => k = l
  | group e => endsWith l e
  | seq es => sequenceEndsWith l es
  | alt es => allEndWith l es
  | repeated e least _ _ => decide (0 < least) && endsWith l e
  | _ => false

/-- `endsWith`, for a sequence. -/
def sequenceEndsWith (l : Look) : List Expr → Bool
  | [] => false
  | e :: es => sequenceEndsWith l es || allOnlyEmpty es && endsWith l e

/-- `endsWith`, for all of several expressions. -/
def allEndWith (l : Look) : List Expr → Bool
  | [] => true
  | e :: es => endsWith l e && allEndWith l es

end

mutual

/-- The expressions are the same. No two groups that capture are. -/
def same : Expr → Expr → Bool
  | empty, empty => true
  | literal cs, literal ds => cs = ds
  | one a, one b => a = b
  | look k, look l => k = l
  | seq ds, seq es => allSame ds es
  | alt ds, alt es => allSame ds es
  | repeated d least most greedy, repeated e least' most' greedy' =>
    least = least' && most = most' && greedy = greedy' && same d e
  | _, _ => false

/-- `same`, for several expressions in order. -/
def allSame : List Expr → List Expr → Bool
  | [], [] => true
  | d :: ds, e :: es => same d e && allSame ds es
  | _, _ => false

end

/-! ### Making expressions -/

/-- One character of a set. -/
def ofSet (a : CharSet) : Expr :=
  match a.toList with
  | [(first, last)] => if first = last then literal [Char.ofNat first] else one a
  | _ => one a

/-- Repetitions. What matches only the empty text is repeated once at most. -/
def times (e : Expr) (least : Nat) (most : Option Nat) (greedy : Bool) : Expr :=
  let (least, most) :=
    if e.onlyEmpty then (min least 1, some (min (most.getD 1) 1)) else (least, most)
  if least = 0 ∧ most = some 0 then empty
  else if least = 1 ∧ most = some 1 then e
  else repeated e least most greedy

/-- A sequence with one more expression in front, which is no sequence. -/
def consOne : Expr → List Expr → List Expr
  | empty, es => es
  | literal cs, literal ds :: es => literal (cs ++ ds) :: es
  | e, es => e :: es

/-- A sequence with what another expression says in front. -/
def cons : Expr → List Expr → List Expr
  | seq ds, es => ds.foldr consOne es
  | e, es => consOne e es

/-- Expressions one after the other. -/
def concat (es : List Expr) : Expr :=
  match es.foldr cons [] with
  | [] => empty
  | [e] => e
  | es => seq es

/-- The alternatives that an expression stands for. -/
def alternatives : Expr → List Expr
  | alt es => es
  | e => [e]

/-- The parts of a sequence. -/
def parts? : Expr → Option (List Expr)
  | seq es => some es
  | _ => none

/-- The character that an expression stands for. -/
def char? : Expr → Option Char
  | literal [c] => some c
  | _ => none

/-- The set that an expression stands for. -/
def set? : Expr → Option CharSet
  | one a => some a
  | _ => none

/-- What two sequences begin with. -/
def commonStart : List Expr → List Expr → List Expr
  | d :: ds, e :: es => if same d e then d :: commonStart ds es else []
  | _, _ => []

/-- One of several expressions. Characters become a set, and so do sets; what
    sequences begin with is taken out of them, and again out of what is left, which
    nests less deeply than `fuel`. -/
def unionWithin : Nat → List Expr → Expr
  | 0, es => alt es
  | fuel + 1, es =>
    match es.flatMap alternatives with
    | [] => one .empty
    | [e] => e
    | es =>
      match es.mapM char?, es.mapM set?, es.mapM parts? with
      | some cs, _, _ => ofSet (.ofList (cs.map Text.Spans.single))
      | _, some sets, _ => ofSet (.ofList sets)
      | _, _, some (first :: others) =>
        match others.foldl commonStart first with
        | [] => alt es
        | start =>
          let rests := (first :: others).map fun parts => concat (parts.drop start.length)
          concat (start ++ [unionWithin fuel rests])
      | _, _, _ => alt es

/-- Patterns may nest this deeply. -/
def maxHeight : Nat := 250

/-- One of several expressions. -/
def union (es : List Expr) : Expr := unionWithin (maxHeight + 1) es

end Expr

end Lineage.Pattern
