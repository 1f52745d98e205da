/-!
# Qualities and queries

An explanation links a part of an output to parts of inputs. Every link carries
a quality, which says how the part it names relates to the true dependency, and
an explanation answers one of two queries.
-/

namespace Lineage

/-- How a named part relates to the true dependency. -/
inductive Quality where
  /-- It is the dependency. -/
  | exact
  /-- It contains the dependency. -/
  | overApprox
  /-- It is contained in the dependency. -/
  | underApprox
deriving Repr, DecidableEq

namespace Quality

/-- The quality of two links one after the other: the weakest link wins, and
    over- and under-approximation together bound nothing. -/
def compose : Quality → Quality → Option Quality
  | exact, q => some q
  | q, exact => some q
  | overApprox, overApprox => some overApprox
  | underApprox, underApprox => some underApprox
  | _, _ => none

/-- The word for a quality. -/
def text : Quality → String
  | exact => "exact"
  | overApprox => "over"
  | underApprox => "under"

/-- The qualities. -/
def all : List Quality := [exact, overApprox, underApprox]

theorem mem_all (q : Quality) : q ∈ all := by cases q <;> decide

end Quality

/-- What is asked about a part of an output. -/
inductive Query where
  /-- Which inputs produced it. -/
  | provenance
  /-- Which inputs, if different, would change it. -/
  | causality
deriving Repr, DecidableEq

namespace Query

/-- The word for a query. -/
def text : Query → String
  | provenance => "provenance"
  | causality => "causality"

/-- The queries. -/
def all : List Query := [provenance, causality]

theorem mem_all (q : Query) : q ∈ all := by cases q <;> decide

end Query

end Lineage
