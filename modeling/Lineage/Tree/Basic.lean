import Lineage.Designator
import Lineage.Quality

/-!
# Explanation trees

A tree is an array of nodes, addressed by their places, and a root among them.
An object node stands for a part of what a function handled; an AND node for
several parts that are needed together, and an OR node for several of which any
one suffices. Branches that reach the same part share its node, and in a cyclic
circuit an edge may lead back, so a "tree" is a directed graph.

* `Tree.leaves` lists the childless nodes below the root, as a depth-first
  search first meets them;
* `Tree.leafPaths` lists the paths from the root that cannot be continued
  without meeting a node again;
* `Tree.pathQuality?` composes the qualities along a path.
-/

namespace Lineage

/-- The number of a function. -/
abbrev FunctionId := Nat

/-- The place of a node. -/
abbrev NodeId := Nat

/-- What an object node stands for: a designated part of a function's pins. -/
structure ObjectKey where
  designator : Designator
  subject : FunctionId
deriving Repr

/-- Keys are compared by their subjects first, which differ more often. -/
instance : DecidableEq ObjectKey := fun a b =>
  decidable_of_iff (a.subject = b.subject ∧ a.designator = b.designator) <| by
    cases a; cases b; simp [and_comm]

/-- The displayed form of a key. -/
def ObjectKey.text (key : ObjectKey) : String := s!"{key.designator.text}@f{key.subject}"

/-- The kinds of node. -/
inductive NodeKind where
  | object (key : ObjectKey)
  /-- All children are needed together. -/
  | and
  /-- Any one child suffices. -/
  | or
deriving Repr, DecidableEq

/-- A link to a child. -/
structure Edge where
  target : NodeId
  quality : Quality
deriving Repr, DecidableEq

/-- A node and the links to its children, in order. -/
structure Node where
  kind : NodeKind
  children : List Edge
deriving Repr, DecidableEq

namespace Node

/-- What an object node stands for. -/
def object? (n : Node) : Option ObjectKey :=
  match n.kind with
  | .object key => some key
  | _ => none

end Node

/-- A finished explanation. -/
structure Tree where
  root : NodeId
  nodes : Array Node
deriving Repr, DecidableEq

namespace Tree

variable (t : Tree)

/-- The number of nodes. -/
def size : Nat := t.nodes.size

/-- The links from a node; an unknown node has none. -/
def children (id : NodeId) : List Edge := (t.nodes[id]?.map Node.children).getD []

/-- What a node stands for, if it is an object node. -/
def object? (id : NodeId) : Option ObjectKey := t.nodes[id]?.bind Node.object?

/-! ### Leaves -/

/-- Depth-first search: the nodes on the stack are still to be visited, its top
    first; those in `seen` have been. A node is visited when it leaves the
    stack for the first time, and its children then go on top. -/
def leavesFrom : Nat → List NodeId → List NodeId → List NodeId
  | 0, _, _ => []
  | _, [], _ => []
  | fuel + 1, id :: stack, seen =>
    if id ∈ seen then leavesFrom fuel stack seen
    else
      let found := leavesFrom fuel ((t.children id).map Edge.target ++ stack) (id :: seen)
      if (t.children id).isEmpty then id :: found else found

/-- The number of edges. -/
def edgeCount : Nat := (t.nodes.toList.flatMap Node.children).length

/-- The childless nodes reachable from the root, in order of discovery. A node
    enters the stack once for the root and once for each edge. -/
def leaves : List NodeId := t.leavesFrom (t.edgeCount + 2) [t.root] []

/-! ### Paths -/

/-- The continuations of a path, given backwards, until every child of its last
    node is on it. -/
def pathsFrom : Nat → NodeId → List NodeId → List (List NodeId)
  | 0, last, before => [(last :: before).reverse]
  | fuel + 1, last, before =>
    let next := (t.children last).filter (·.target ∉ last :: before)
    if next.isEmpty then [(last :: before).reverse]
    else next.flatMap fun edge => pathsFrom fuel edge.target (last :: before)

/-- The paths from the root that cannot be continued without meeting a node
    again. No path is longer than there are nodes. -/
def leafPaths : List (List NodeId) := t.pathsFrom (t.size + 1) t.root []

/-- The quality of the link from a node to a child: of several, the first. -/
def linkQuality? (source target : NodeId) : Option Quality :=
  ((t.children source).find? (·.target = target)).map Edge.quality

/-- The quality of a path to which one of quality `q` leads. -/
def pathQualityFrom? (q : Quality) : List NodeId → Option Quality
  | source :: target :: path => do
    let link ← t.linkQuality? source target
    let q ← q.compose link
    pathQualityFrom? q (target :: path)
  | _ => some q

/-- The composed quality of the links along a path, unless two nodes of it are
    not linked, or the links together bound nothing. -/
def pathQuality? (path : List NodeId) : Option Quality := t.pathQualityFrom? .exact path

end Tree

end Lineage
