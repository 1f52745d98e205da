import Lineage.Designator.Json
import Lineage.Quality.Json
import Lineage.Tree.Basic

/-!
# Trees in JSON

For those who draw them: the root, and the nodes with their kinds and links.
-/

namespace Lineage

/-- The printed form. -/
def Edge.toJson (e : Edge) : Json := .obj [("to", .nat e.target), ("quality", e.quality.toJson)]

/-- The printed form. -/
def NodeKind.toJson : NodeKind → Json
  | object key =>
    .obj [("Object", .obj [("designator", key.designator.toJson), ("subject", .nat key.subject)])]
  | and => .str "And"
  | or => .str "Or"

/-- The printed form. -/
def Node.toJson (n : Node) : Json :=
  .obj [("kind", n.kind.toJson), ("children", .array (n.children.map Edge.toJson))]

/-- The printed form. -/
def Tree.toJson (t : Tree) : Json :=
  .obj [("root", .nat t.root), ("nodes", .array (t.nodes.toList.map Node.toJson))]

end Lineage
