import Lineage.Keeper.Basic

/-!
# Grafts

A graft copies what hangs below a node of one keeper, the *scratch*, onto a node
of another. Each node is copied once, however many edges lead to it, also along
cycles and back to the node that is grafted; what the copied object nodes stand
for is renamed on the way. Two nodes that are renamed alike become one.
-/

namespace Lineage.Keeper

/-- A graft under way. -/
structure Grafting where
  /-- The nodes of the keeper that is grafted onto. -/
  keeper : Keeper
  /-- The nodes of the scratch that have been copied, with their copies. -/
  copies : List (NodeId × NodeId)

/-- A node like one of the scratch, for the given subject. -/
def copyNode (k : Keeper) (subject : FunctionId) (rename : Designator → Designator) :
    NodeKind → Keeper × NodeId
  | .object key => k.objectNode subject (rename key.designator)
  | .and => k.andNode
  | .or => k.orNode

/-- Copies a node and all below it that has not been copied, depth first: a node
    links to the copy of a child when all below the child has been copied. The
    nodes on the way to the node are copied and distinct, so `fuel` need not
    exceed the number of nodes of the scratch. -/
def copy (scratch : Keeper) (subject : FunctionId) (rename : Designator → Designator) :
    Nat → NodeId → Grafting → Grafting × NodeId
  | 0, id, g => (g, id)
  | fuel + 1, id, g =>
    match g.copies.lookup id, scratch.node? id with
    | some copied, _ => (g, copied)
    | none, none => (g, id)
    | none, some node =>
      let (keeper, copied) := g.keeper.copyNode subject rename node.kind
      let g := node.children.foldl
        (fun g edge =>
          let (g, child) := copy scratch subject rename fuel edge.target g
          { g with keeper := g.keeper.addChild copied child edge.quality })
        ⟨keeper, (id, copied) :: g.copies⟩
      (g, copied)

/-- Copies several nodes in order. -/
def copyAll (scratch : Keeper) (subject : FunctionId) (rename : Designator → Designator) :
    List NodeId → Grafting → Grafting × List NodeId
  | [], g => (g, [])
  | id :: ids, g =>
    let (g, copied) := copy scratch subject rename (scratch.size + 1) id g
    let (g, rest) := copyAll scratch subject rename ids g
    (g, copied :: rest)

/-- Hangs what is below `source` in the scratch onto `target`, renaming what the
    object nodes stand for; gives the copies of `leaves`. -/
def graft (k : Keeper) (subject : FunctionId) (scratch : Keeper) (source target : NodeId)
    (leaves : List NodeId) (rename : Designator → Designator) : Keeper × List NodeId :=
  let edges := ((scratch.node? source).map Node.children).getD []
  let g := edges.foldl
    (fun g edge =>
      let (g, child) := copy scratch subject rename (scratch.size + 1) edge.target g
      { g with keeper := g.keeper.addChild target child edge.quality })
    (⟨k, [(source, target)]⟩ : Grafting)
  let (g, copied) := copyAll scratch subject rename leaves g
  (g.keeper, copied)

end Lineage.Keeper
