import Lineage.Keeper.Register

/-!
# Node keepers

A keeper owns the nodes of a tree while it grows. There is one object node for
each part of each function, kept when it is first met and found again after
that; AND and OR nodes are always new. A node links to the same child with the
same quality once.

Beside the nodes there is a register, in which the node for a part is found, and
the part of a node. It goes along with what is done to the nodes.
-/

namespace Lineage

/-- The nodes of a growing tree. -/
structure Keeper where
  nodes : Array Node
  /-- The parts that are kept. -/
  [kept : Register nodes]
deriving Repr

namespace Keeper

/-- The register is the one that belongs to the nodes. -/
theorem eq_of_nodes {k k' : Keeper} (h : k.nodes = k'.nodes) : k = k' := by
  cases k
  cases k'
  cases h
  exact congrArg (@mk _) (Subsingleton.elim _ _)

instance : DecidableEq Keeper := fun k k' =>
  decidable_of_iff (k.nodes = k'.nodes) ⟨eq_of_nodes, congrArg nodes⟩

/-- No nodes. -/
def empty : Keeper := ⟨#[]⟩

instance : Inhabited Keeper := ⟨empty⟩

variable (k : Keeper)

/-- The number of nodes. -/
def size : Nat := k.nodes.size

/-- The node with the given number. -/
def node? (id : NodeId) : Option Node := k.nodes[id]?

/-- What a node stands for, if it is an object node. -/
def object? (id : NodeId) : Option ObjectKey := k.kept.key? id

/-- The node that stands for the given part. -/
def find? (key : ObjectKey) : Option NodeId := k.kept.id? key

/-- A new node without children, and its number. -/
def push (kind : NodeKind) : Keeper × NodeId :=
  ({ nodes := k.nodes.push ⟨kind, []⟩, kept := k.kept.push kind }, k.size)

/-- The node that stands for the given part, kept now if it has not been. -/
def keep (key : ObjectKey) : Keeper × NodeId :=
  match k.find? key with
  | some id => (k, id)
  | none => k.push (.object key)

/-- A new AND node. -/
def andNode : Keeper × NodeId := k.push .and

/-- A new OR node. -/
def orNode : Keeper × NodeId := k.push .or

/-- A link from `parent` to `child`, unless the very same one is there. -/
def addChild (parent child : NodeId) (quality : Quality) : Keeper where
  nodes := k.nodes.modify parent fun n =>
    if ⟨child, quality⟩ ∈ n.children then n
    else { n with children := n.children ++ [⟨child, quality⟩] }
  kept := k.kept.modify parent fun n => by split <;> rfl

/-- The finished tree below the given root. -/
def toTree (root : NodeId) : Tree := ⟨root, k.nodes⟩

/-! ### Nodes for one function

What explains an output of a function, the `subject`, stands for parts of that
function. -/

/-- The node for a part of the subject. -/
def objectNode (subject : FunctionId) (d : Designator) : Keeper × NodeId := k.keep ⟨d, subject⟩

/-- Links `parent` to the nodes for parts of the subject, in order; gives these
    nodes. -/
def attach (subject : FunctionId) (parent : NodeId) (quality : Quality) :
    List Designator → Keeper → Keeper × List NodeId
  | [], k => (k, [])
  | d :: ds, k =>
    let (k, child) := k.objectNode subject d
    let (k, children) := attach subject parent quality ds (k.addChild parent child quality)
    (k, child :: children)

/-- Links `root` exactly to a new node of the given kind, and that node exactly
    to the nodes for parts of the subject, in order; gives these nodes. -/
def attachBelow (kind : NodeKind) (subject : FunctionId) (root : NodeId)
    (ds : List Designator) : Keeper × List NodeId :=
  let (k, middle) := k.push kind
  let (k, leaves) := attach subject middle .exact ds k
  (k.addChild root middle .exact, leaves)

/-- Explains `root` by all inputs of the subject together. -/
def linkAllInputs (subject : FunctionId) (arity : Nat) (root : NodeId) : Keeper × List NodeId :=
  k.attachBelow .and subject root
    ((List.range arity).map fun i => Designator.compose [.input i])

end Keeper

end Lineage
