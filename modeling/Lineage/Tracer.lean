import Lineage.Circuit

/-!
# Tracing

A trace explains a part of an output of a function. It asks the function's
witness, follows each input pin that the answer ends in over its wire to the
output that feeds it, and goes on from there. An input that nothing feeds is an
input of the whole circuit, and the explanation ends in it.

Each node is expanded once, whichever branch reaches it first, so branches that
meet are joined and cycles are cut. This does not bound a trace: around a cycle,
designators may grow without end. So a trace is given `fuel`, the number of
nodes that may be expanded one below the other, and has no result if that is
too little.
-/

namespace Lineage

/-- What a trace needs to know of how functions are connected. -/
structure Wiring where
  /-- The output pin that feeds an input pin. -/
  feeder : Pin → Option Pin
  /-- The witness of the last evaluation of a function. -/
  witness : FunctionId → Option Witness

/-- The connections of a circuit. -/
def Circuit.wiring (c : Circuit) : Wiring := ⟨c.feeder?, c.witness?⟩

/-- How far traces go. -/
structure Tracer where
  /-- Nodes more steps than this from the root are not expanded. -/
  maxDepth : Option Nat := none
deriving Repr, DecidableEq

namespace Tracer

/-- A trace under way. -/
structure Tracing where
  keeper : Keeper
  /-- The nodes that have been expanded, or tried. -/
  expanded : List NodeId

/-- Attaches the immediate explanation of a node, and gives the nodes it ends
    in. An output is explained by the witness of its function, an input by what
    feeds it; nothing else is explained. -/
def explain (w : Wiring) (query : Query) (node : NodeId) (k : Keeper) : Keeper × List NodeId :=
  match k.object? node with
  | none => (k, [])
  | some key =>
    match key.designator.head with
    | .output _ =>
      match w.witness key.subject with
      | some witness => witness.answer query key.designator.rest key.subject node k
      | none => (k, [])
    | .input n =>
      match w.feeder ⟨key.subject, n⟩ with
      | some output =>
        Keeper.attach output.function node .exact
          [Designator.nest [.output output.number] key.designator.rest] k
      | none => (k, [])
    | _ => (k, [])

/-- Does `step` for each of several nodes, unless one has no result. -/
def forEach (step : NodeId → Tracing → Option Tracing) : List NodeId → Tracing → Option Tracing
  | [], t => some t
  | node :: nodes, t => do forEach step nodes (← step node t)

/-- Expands a node and all below it, unless it is too deep or has been
    expanded. -/
def expand (tracer : Tracer) (w : Wiring) (query : Query) :
    Nat → Nat → NodeId → Tracing → Option Tracing
  | 0, _, _, _ => none
  | fuel + 1, depth, node, t =>
    if tracer.maxDepth.any (· < depth) ∨ node ∈ t.expanded then some t
    else
      let (k, leaves) := explain w query node t.keeper
      forEach (expand tracer w query fuel (depth + 1)) leaves ⟨k, node :: t.expanded⟩

/-- The explanation of the part `d` of a function, which begins with an output
    pin. -/
def tree? (tracer : Tracer) (fuel : Nat) (w : Wiring) (query : Query) (d : Designator)
    (root : FunctionId) : Option Tree := do
  let (k, node) := Keeper.empty.keep ⟨d, root⟩
  let t ← tracer.expand w query fuel 0 node ⟨k, []⟩
  return t.keeper.toTree node

end Tracer

end Lineage
