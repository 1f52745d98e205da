import Lineage.Main
import Lineage.Range.Arithmetic
import Lineage.Function.Spec
import Lineage.Value.Json
import Lineage.Proofs.Keeper.Attach
import Lineage.Proofs.Outline.Basic
import Lineage.Proofs.Outline.Graft
import Lineage.Proofs.Outcomes
import Lineage.Proofs.Designator.Chain
import Lineage.Proofs.Designator.Written
import Lineage.Proofs.Designator.Printed
import Lineage.Proofs.Outline.Answer
import Lineage.Proofs.Trace.Rule
import Lineage.Proofs.Trace.Closure
import Lineage.Proofs.Outline.Copy
import Lineage.Proofs.Trace.Tree
import Lineage.Proofs.Circuit.Plain
import Lineage.Proofs.Circuit.Pull
import Lineage.Proofs.Circuit.Evaluation
import Lineage.Proofs.Trace.Fuel
import Lineage.Proofs.Designator.Within
import Lineage.Proofs.Trace.Growth
import Lineage.Proofs.Trace.Leaves
import Lineage.Proofs.Circuit.Explained
import Lineage.Proofs.Circuit.Alike
import Lineage.Proofs.Trace.Local
import Lineage.Proofs.Circuit.History
import Lineage.Proofs.Circuit.Calls
import Lineage.Proofs.Json.Compact
import Lineage.Proofs.Function.Printed
import Lineage.Proofs.Function.Elements
import Lineage.Proofs.Keeper.Renamed
import Lineage.Proofs.Outline.Moved
import Lineage.Proofs.Function.Match
import Lineage.Proofs.Trace.Search
import Lineage.Proofs.Circuit.Reliance
import Lineage.Proofs.Trace.Part
import Lineage.Proofs.Trace.Depth
import Lineage.Proofs.Outline.Contract
import Lineage.Proofs.Outline.Residual
import Lineage.Proofs.Trace.Residual
import Lineage.Proofs.Function.Find
import Lineage.Proofs.Keeper.Joined
import Lineage.Proofs.Function.Quantifier
import Lineage.Proofs.Function.Shifted
import Lineage.Proofs.Function.Sum
import Lineage.Proofs.Graft.Image
import Lineage.Proofs.Tree.Paths
import Lineage.Proofs.Range.Positions
import Lineage.Proofs.Json.Designator
import Lineage.Proofs.Tree.Ends
import Lineage.Proofs.Tree.Qualities
import Lineage.Proofs.Trace.Qualities
import Lineage.Proofs.Keeper.Chores
import Lineage.Proofs.Designator.Ranges
