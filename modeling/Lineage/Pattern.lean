import Lineage.Error

/-!
# Patterns

A pattern is compiled from its text once, and then finds its first match in strings.
What texts denote patterns, and which of the matches in a string is the first, is
left to an engine (`Pattern.Engine`). What is said of patterns holds whatever the
engine; `Lineage.Pattern.Standard` is one to run the program with.

A match in a string is told by offsets of bytes, and who wants characters counts
them (`Match.before`).
-/

namespace Lineage

/-! ### Matches in strings -/

/-- A match in a string: the offsets of its first byte and of the byte after its
    last. Neither is inside a character. -/
structure Match (s : String) where
  start : s.Pos
  stop : s.Pos
  start_le_stop : start ≤ stop

namespace Match

variable {s : String}

/-- The text matched. -/
def text (m : Match s) : String := String.extract m.start m.stop

/-- The number of characters before the match. -/
def before (m : Match s) : Nat := (String.extract s.startPos m.start).length

end Match

/-! ### Patterns -/

/-- A compiled pattern. -/
structure Pattern where
  /-- The text of the pattern. -/
  source : String
  /-- The first match in a string. -/
  locate? : (s : String) → Option (Match s)

namespace Pattern

/-- What compiles patterns. -/
class Engine where
  /-- Finds the first match of the pattern that a text denotes in a string; of a text
      that denotes no pattern, there is nothing to find. -/
  compile? (source : String) : Option ((s : String) → Option (Match s))

/-- The pattern that a text denotes. -/
def read [Engine] (source : String) : Except Error Pattern :=
  match Engine.compile? source with
  | some locate? => .ok ⟨source, locate?⟩
  | none => .error (.read .pattern)

/-- A pattern that was read has the text that it was read from. -/
theorem source_of_read [Engine] {source : String} {p : Pattern} (h : read source = .ok p) :
    p.source = source := by
  rw [read] at h
  split at h
  · exact Except.ok.inj h ▸ rfl
  · exact absurd h nofun

end Pattern

end Lineage
