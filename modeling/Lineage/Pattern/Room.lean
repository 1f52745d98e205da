import Std.Data.HashMap
import Lineage.Pattern.Expr
import Lineage.Text.Utf8

/-!
# The room that patterns take

A pattern is only accepted if the automata that search for it in the bytes of a
text, forward and backward, are not too large. The size of an automaton is the
number of its states, of thirty-two bytes each, and of the bytes beyond those
that its choices take: four for each way out of a choice, and eight for each way
if it depends on the next byte.

The sizes are counted in the order in which the states are made, since how many
states a set of characters needs depends on their numbers: a state that leads to
the same states by the same bytes as one that was made shortly before is not made
again.
-/

namespace Lineage.Pattern

/-- The size of an automaton. -/
structure Room where
  states : Nat
  /-- The bytes beyond those of the states themselves. -/
  further : Nat
deriving Repr, DecidableEq

namespace Room

/-- The size in bytes. -/
def bytes (r : Room) : Nat := 32 * r.states + r.further

/-- An automaton may take ten times `2 ^ 20` bytes. -/
def capacity : Nat := 10485760

/-- The automaton is too large. -/
def isOver (r : Room) : Bool := decide (capacity < r.bytes)

/-- Some states more, and some bytes beyond theirs. -/
def add (r : Room) (states further : Nat) : Room := ⟨r.states + states, r.further + further⟩

/-- Something added `n` times, as far as there is room. -/
def times (f : Room → Room) : Nat → Room → Room
  | 0, r => r
  | n + 1, r => if r.isOver then r else times f n (f r)

/-- The direction in which an automaton goes through a text. -/
inductive Direction where
  | forward
  | backward
deriving Repr, DecidableEq

/-! ### Sets of characters -/

/-- What is remembered of states made shortly before: for each of so many places,
    a key and a state. -/
structure Memory (α : Type) where
  places : Nat
  table : Std.HashMap Nat (α × Nat)

namespace Memory

variable {α : Type} [DecidableEq α]

/-- Nothing remembered. -/
def empty (places : Nat) : Memory α := ⟨places, ∅⟩

/-- The place for a key, which is given by numbers. -/
def placeOf (m : Memory α) (key : List Nat) : Nat :=
  let mix (h : UInt64) (n : Nat) : UInt64 := (h ^^^ n.toUInt64) * 1099511628211
  (key.foldl mix 14695981039346656037).toNat % m.places

/-- The state remembered for a key at a place. -/
def get? (m : Memory α) (place : Nat) (key : α) : Option Nat :=
  match m.table.get? place with
  | some (k, state) => if k = key then some state else none
  | none => none

/-- Remembers the state for a key, in place of what the place held. -/
def put (m : Memory α) (place : Nat) (key : α) (state : Nat) : Memory α :=
  { m with table := m.table.insert place (key, state) }

end Memory

/-- A way to another state: by a span of bytes. -/
abbrev Way := Text.Span × Nat

/-- An automaton and the states last made in it, known by their ways. -/
abbrev Build := Room × Memory (List Way)

/-- The state with the given ways. -/
def stateOf (ways : List Way) (build : Build) : Nat × Build :=
  let (r, memory) := build
  let place := memory.placeOf (ways.flatMap fun ((first, last), next) => [first, last, next])
  match memory.get? place ways with
  | some state => (state, build)
  | none => (r.states, r.add 1 (8 * ways.length), memory.put place ways r.states)

/-- The state from which the bytes of sequences, which ascend, lead to `goal`. No
    sequence is longer than `fuel`. -/
def stateBefore (goal : Nat) : Nat → List Text.ByteSpans → Build → Nat × Build
  | 0, _, build => (goal, build)
  | fuel + 1, sequences, build =>
    if sequences.all (·.isEmpty) then (goal, build)
    else
      let step (made : List Way × Build) (group : List Text.ByteSpans) : List Way × Build :=
        let (ways, build) := made
        let (next, build) := stateBefore goal fuel (group.map List.tail) build
        (((group.headD []).headD (0, 0), next) :: ways, build)
      let (ways, build) := (sequences.splitBy fun s t => s.head? == t.head?).foldl step ([], build)
      stateOf ways.reverse build

/-- A set of characters forward: states that share what their ways end with. -/
def addForward (a : CharSet) (r : Room) : Room :=
  (stateBefore r.states 4 a.byteSequences (r.add 1 0, .empty 10000)).2.1

/-- A set of characters backward: a choice among the sequences, each a chain of
    states, of which those towards the end may be shared. -/
def addBackward (a : CharSet) (r : Room) : Room :=
  let goal := r.states + 1
  let link (made : Nat × Room × Memory (Nat × Text.Span)) (s : Text.Span) :
      Nat × Room × Memory (Nat × Text.Span) :=
    let (next, r, memory) := made
    let place := memory.placeOf [next, s.1, s.2]
    match memory.get? place (next, s) with
    | some state => (state, r, memory)
    | none => (r.states, r.add 1 0, memory.put place (next, s) r.states)
  let chain (made : Room × Memory (Nat × Text.Span)) (sequence : Text.ByteSpans) :
      Room × Memory (Nat × Text.Span) :=
    let (_, r, memory) := sequence.foldl link (goal, made.1, made.2)
    (r.add 0 4, memory)
  (a.byteSequences.foldl chain (r.add 2 0, .empty 1000)).1

/-- A set of characters. The ways of plain characters fit one state. -/
def addSet (d : Direction) (a : CharSet) (r : Room) : Room :=
  if a.isPlain then r.add 2 (8 * a.size)
  else match d with
    | .forward => addForward a r
    | .backward => addBackward a r

/-! ### Alternative texts -/

/-- A place in a tree of texts: the ways on that came before the end of some text,
    numbered by ends, and the ways that came after the last end. -/
structure Fork where
  /-- The numbers of ways before each end. -/
  closed : List Nat
  /-- The ways on, by the next byte, to other places. -/
  ways : List (Nat × Nat)
deriving Repr

namespace Fork

/-- The fork has no way on. -/
def isLeaf (f : Fork) : Bool := f.ways.isEmpty && f.closed.all (· = 0)

/-- Ends a text here. -/
def close (f : Fork) : Fork :=
  if f.isLeaf && !f.closed.isEmpty then f else ⟨f.closed ++ [f.ways.length], []⟩

/-- The room for a fork: a choice among its groups of ways and its ends. -/
def add (r : Room) (f : Fork) : Room :=
  if f.isLeaf then r
  else
    let groups := (f.closed ++ [f.ways.length]).filter (0 < ·)
    let r := groups.foldl (fun r n => r.add 1 (if n = 1 then 0 else 8 * n)) r
    r.add 1 (4 * (groups.length + f.closed.length))

end Fork

/-- A tree of texts with one more, from a place in the tree on. -/
def addText : List Nat → Nat → Array Fork → Array Fork
  | [], place, tree => tree.modify place Fork.close
  | byte :: bytes, place, tree =>
    match tree[place]?.bind (·.ways.lookup byte) with
    | some next => addText bytes next tree
    | none =>
      let next := tree.size
      let tree := tree.modify place fun f => { f with ways := (byte, next) :: f.ways }
      addText bytes next (tree.push ⟨[], []⟩)

/-- The bytes of a text in the order in which an automaton meets them. -/
def bytesOf (d : Direction) (cs : List Char) : List Nat :=
  let bytes := cs.flatMap fun c => Text.bytesOfCode c.toNat
  match d with
  | .forward => bytes
  | .backward => bytes.reverse

/-- Alternative texts, as a tree that goes the same way as long as they are the
    same. -/
def addTexts (d : Direction) (texts : List (List Char)) (r : Room) : Room :=
  let tree := texts.foldl (fun tree cs => addText (bytesOf d cs) 0 tree) #[⟨[], []⟩]
  tree.foldl Fork.add (r.add 1 0)

end Room

namespace Expr

/-- The text that an expression stands for. -/
def text? : Expr → Option (List Char)
  | literal cs => some cs
  | _ => none

mutual

/-- The room with that for an expression. Groups only count forward. -/
def charge (d : Room.Direction) : Expr → Room → Room
  | empty, r => r.add 1 0
  | literal cs, r => r.add (cs.foldl (fun n c => n + c.utf8Size) 0) 0
  | one a, r => Room.addSet d a r
  | look _, r => r.add 1 0
  | group e, r =>
    match d with
    | .forward => (charge d e (r.add 1 0)).add 1 0
    | .backward => charge d e r
  | seq es, r => chargeSeq d es r
  | alt es, r =>
    match es.mapM text? with
    | some texts => Room.addTexts d texts r
    | none => chargeAlt d es r
  | repeated e least most _, r =>
    let more (r : Room) : Room := charge d e (r.add 1 8)
    match least, most with
    | 0, some 1 => (more r).add 1 0
    | 0, none => if consumes e then more r else (charge d e r).add 3 16
    | least, none => (Room.times (charge d e) least r).add 1 8
    | least, some most =>
      let r := if least = 0 then r.add 1 0 else Room.times (charge d e) least r
      if least = most then r else Room.times more (most - least) (r.add 1 0)

/-- The room with that for a sequence. -/
def chargeSeq (d : Room.Direction) : List Expr → Room → Room
  | [], r => r
  | e :: es, r =>
    match d with
    | .forward => chargeSeq d es (charge d e r)
    | .backward => charge d e (chargeSeq d es r)

/-- The room with that for alternatives, of which there are at least two: the
    choice and the place where they meet come after the second. -/
def chargeAlt (d : Room.Direction) : List Expr → Room → Room
  | e :: f :: es, r => chargeEach d es ((charge d f (charge d e r)).add 2 8)
  | _, r => r

/-- The room with that for further alternatives. -/
def chargeEach (d : Room.Direction) : List Expr → Room → Room
  | [], r => r
  | e :: es, r => chargeEach d es ((charge d e r).add 0 4)

end

/-- The room for the automaton of an expression. A search that need not begin where
    the text does, or backward where it ends, takes three states more than one that
    has to. -/
def room (d : Room.Direction) (e : Expr) : Room :=
  match d with
  | .forward =>
    let r : Room := if e.beginsWith .textStart then ⟨1, 0⟩ else ⟨3, 16⟩
    (charge d (.group e) r).add 1 0
  | .backward =>
    let r : Room := if e.endsWith .textEnd then ⟨1, 0⟩ else ⟨3, 16⟩
    (charge d e r).add 1 0

/-- So many alternative texts are searched for without an automaton. -/
def manyTexts : Nat := 3000

/-- There is room for the expression. -/
def fits (e : Expr) : Bool :=
  match e with
  | alt es =>
    (decide (manyTexts ≤ es.length) && es.all (·.text?.isSome)) ||
      !(e.room .forward).isOver && !(e.room .backward).isOver
  | _ => !(e.room .forward).isOver && !(e.room .backward).isOver

end Expr

end Lineage.Pattern
