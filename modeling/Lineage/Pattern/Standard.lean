import Lineage.Pattern
import Lineage.Pattern.Reader
import Lineage.Pattern.Room
import Lineage.Pattern.Search

/-!
# An engine

The engine that the program runs with. It reads a pattern, sees that it takes not too
much room, and compiles it to a program. Matching is leftmost-first: of the matches
that begin at the first place where one does, it finds the one the pattern prefers.

A search goes by characters; the places that it gives become offsets of bytes
(`Match.ofPlaces`). Sets of characters that are named by their Unicode properties
are not known here, and a pattern that asks for one is refused.
-/

namespace Lineage

/-- The match from one place to another, counted in characters. -/
def Match.ofPlaces (s : String) (start stop : Nat) : Match s where
  start := s.startPos.nextn start
  stop := (s.startPos.nextn start).nextn (stop - start)
  start_le_stop := String.Pos.le_nextn

namespace Pattern

namespace Program

/-- The program of a pattern, unless it is none or takes too much room. -/
def ofSource? (source : String) : Option Program := do
  let e ← Expr.read source.toList
  if e.fits then some (ofExpr e) else none

/-- The first match in a string. -/
def locate? (p : Program) (s : String) : Option (Match s) :=
  (p.search s.toList).map fun (start, stop) => .ofPlaces s start stop

variable {p : Program} {source s : String} {start stop : Nat}

theorem locate?_of_search (h : p.search s.toList = some (start, stop)) :
    p.locate? s = some (.ofPlaces s start stop) := by
  rw [locate?, h]
  rfl

end Program

instance standard : Engine where
  compile? source := (Program.ofSource? source).map Program.locate?

theorem read_of_ofSource? {p : Program} {source : String} (h : Program.ofSource? source = some p) :
    read source = .ok ⟨source, p.locate?⟩ := by
  have hcompile : Engine.compile? source = some p.locate? := congrArg (Option.map Program.locate?) h
  rw [read, hcompile]

end Pattern

end Lineage
