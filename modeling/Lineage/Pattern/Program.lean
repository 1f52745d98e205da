import Lineage.Pattern.Expr

/-!
# Pattern programs

A program is an array of steps. A run stands at a step and at a place in the
text; a choice goes on at either of two steps, the first before the second. The
matches of an expression are the ways from its first step to the step it is
compiled to go on to, in the order in which a depth-first search meets them.
-/

namespace Lineage.Pattern

/-- The number of a step. -/
abbrev Label := Nat

/-- A step of a program. -/
inductive Step where
  /-- Takes a character of the set. -/
  | take (set : CharSet) (next : Label)
  /-- Goes on if the assertion holds. -/
  | look (l : Look) (next : Label)
  /-- Goes on in one of two ways. -/
  | choose (first second : Label)
  /-- A match ends here. -/
  | done
deriving Repr, DecidableEq

/-- The steps of a program. -/
abbrev Steps := Array Step

/-- Steps with a new one at their end, and its label. -/
def Steps.add (steps : Steps) (step : Step) : Label × Steps := (steps.size, steps.push step)

/-- A choice between repeating and going on. -/
def Step.iterate (greedy : Bool) (again onward : Label) : Step :=
  if greedy then .choose again onward else .choose onward again

/-- Adds an expression that goes on to a given step, and gives its first step. -/
abbrev Compile := Label → Steps → Label × Steps

namespace Compile

/-- Nothing: goes on at once. -/
def skip : Compile := fun next steps => (next, steps)

/-- One expression after another. -/
def andThen (first second : Compile) : Compile := fun next steps =>
  let (label, steps) := second next steps
  first label steps

/-- Exactly `n` repetitions. -/
def times (body : Compile) : Nat → Compile
  | 0, next, steps => (next, steps)
  | n + 1, next, steps =>
    let (label, steps) := body next steps
    times body n label steps

/-- At most `n` repetitions before `last`; whenever they stop, they go on to
    `next`. -/
def upToFrom (body : Compile) (greedy : Bool) (next : Label) :
    Nat → Label → Steps → Label × Steps
  | 0, last, steps => (last, steps)
  | n + 1, last, steps =>
    let (again, steps) := body last steps
    let (last, steps) := steps.add (.iterate greedy again next)
    upToFrom body greedy next n last steps

/-- At most `n` repetitions. -/
def upTo (body : Compile) (greedy : Bool) (n : Nat) : Compile := fun next steps =>
  body.upToFrom greedy next n next steps

/-- A loop: the choice between going on and repeating after each repetition.
    Gives the first step of the repetition and the choice. -/
def loop (body : Compile) (greedy : Bool) (next : Label) (steps : Steps) :
    (Label × Label) × Steps :=
  let (choice, steps) := steps.add (.choose next next)
  let (again, steps) := body choice steps
  ((again, choice), steps.setIfInBounds choice (.iterate greedy again next))

/-- At least one repetition. -/
def oneOrMore (body : Compile) (greedy : Bool) : Compile := fun next steps =>
  let ((again, _), steps) := body.loop greedy next steps
  (again, steps)

/-- Any number of repetitions. A repetition that may be empty is entered by a
    choice of its own: the choice after it is then met for the first time when
    a repetition ends, whichever way it went. -/
def zeroOrMore (body : Compile) (consumes greedy : Bool) : Compile := fun next steps =>
  let ((again, choice), steps) := body.loop greedy next steps
  if consumes then (choice, steps) else steps.add (.iterate greedy again next)

end Compile

namespace Expr

mutual

/-- Compiles an expression. -/
def compile : Expr → Compile
  | empty => Compile.skip
  | literal cs => fun next steps =>
    cs.foldr (fun c (next, steps) => steps.add (.take (Text.Spans.single c) next)) (next, steps)
  | one set => fun next steps => steps.add (.take set next)
  | look l => fun next steps => steps.add (.look l next)
  | group e => compile e
  | seq es => compileSeq es
  | alt es => compileAlt es
  | repeated e least most greedy =>
    let body := compile e
    match least, most with
    | 0, none => body.zeroOrMore (consumes e) greedy
    | least + 1, none => (body.times least).andThen (body.oneOrMore greedy)
    | least, some most => (body.times least).andThen (body.upTo greedy (most - least))

/-- Compiles expressions one after the other. -/
def compileSeq : List Expr → Compile
  | [] => Compile.skip
  | e :: es => (compile e).andThen (compileSeq es)

/-- Compiles alternatives. -/
def compileAlt : List Expr → Compile
  | [] => Compile.skip
  | [e] => compile e
  | e :: es => fun next steps =>
    let (second, steps) := compileAlt es next steps
    let (first, steps) := compile e next steps
    steps.add (.choose first second)

end

end Expr

/-- A compiled pattern. -/
structure Program where
  start : Label
  steps : Steps
deriving Repr, DecidableEq

/-- The program that matches an expression. -/
def Program.ofExpr (e : Expr) : Program :=
  let (start, steps) := e.compile 0 #[.done]
  ⟨start, steps⟩

end Lineage.Pattern
