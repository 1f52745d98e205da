import Std.Data.HashSet
import Lineage.Pattern.Program

/-!
# Searching a text

The search tries the places of the text in order, and from each follows the
program depth first, the first of two ways before the second. The first run that
reaches the end of the program gives the match: the leftmost, and of those that
begin there, the one the expression prefers.

How a run goes on depends on its step and its place alone. So no run goes on
where one has gone on before, and the search takes no more steps than there are
steps in the program for each place in the text.
-/

namespace Lineage.Pattern

/-- The assertion holds before the character at place `i`. -/
def Look.holds (text : Array Char) (i : Nat) : Look → Bool
  | textStart => i == 0
  | textEnd => i == text.size
  | lineStart => i == 0 || text[i - 1]? == some '\n'
  | lineEnd => i == text.size || text[i]? == some '\n'
  | returnLineStart =>
    i == 0 || text[i - 1]? == some '\n' ||
      (text[i - 1]? == some '\r' && text[i]? != some '\n')
  | returnLineEnd =>
    i == text.size || text[i]? == some '\r' ||
      (text[i]? == some '\n' && (i == 0 || text[i - 1]? != some '\r'))
  | word edge plain =>
    let isWord (c : Char) : Bool :=
      if plain then CharSet.plainWord.contains c else Text.isWordChar c
    let before := i != 0 && text[i - 1]?.any isWord
    let after := text[i]?.any isWord
    match edge with
    | .boundary => before != after
    | .inside => before == after
    | .start => !before && after
    | .stop => before && !after
    | .startHalf => !before
    | .stopHalf => !after

/-- A run: the step and the place it stands at. -/
structure Run where
  label : Label
  place : Nat
deriving Repr, DecidableEq

/-- The runs that have gone on, each by a number of its own. -/
abbrev Visited := Std.HashSet Nat

namespace Program

/-- The number of a run. No two runs at a step of the program have the same. -/
def number (p : Program) (r : Run) : Nat := r.place * p.steps.size + r.label

/-- Follows the runs on the stack, the topmost first, until one reaches the end
    of the program; gives the place where it does. -/
def explore (p : Program) (text : Array Char) :
    Nat → List Run → Visited → Option Nat × Visited
  | 0, _, visited => (none, visited)
  | _, [], visited => (none, visited)
  | fuel + 1, run :: stack, visited =>
    let (known, visited) := visited.containsThenInsert (p.number run)
    if known then explore p text fuel stack visited
    else
      let ⟨label, i⟩ := run
      match p.steps[label]? with
      | some .done => (some i, visited)
      | some (.choose first second) =>
        explore p text fuel (⟨first, i⟩ :: ⟨second, i⟩ :: stack) visited
      | some (.look l next) =>
        if l.holds text i then explore p text fuel (⟨next, i⟩ :: stack) visited
        else explore p text fuel stack visited
      | some (.take set next) =>
        if text[i]?.any set.contains then explore p text fuel (⟨next, i + 1⟩ :: stack) visited
        else explore p text fuel stack visited
      | none => explore p text fuel stack visited

/-- A run enters the stack once for each place the search begins at, and twice
    at most when another goes on. -/
def fuel (p : Program) (text : Array Char) : Nat := 2 * p.steps.size * (text.size + 1) + 2

/-- The first match that begins at one of `count` places from `start` on. -/
def searchFrom (p : Program) (text : Array Char) :
    Nat → Nat → Visited → Option (Nat × Nat)
  | 0, _, _ => none
  | count + 1, start, visited =>
    match p.explore text (p.fuel text) [⟨p.start, start⟩] visited with
    | (some stop, _) => some (start, stop)
    | (none, visited) => searchFrom p text count (start + 1) visited

/-- The first match in a text: the place of its first character, and the place
    after its last. -/
def search (p : Program) (text : List Char) : Option (Nat × Nat) :=
  p.searchFrom text.toArray (text.length + 1) 0 ∅

end Program

end Lineage.Pattern
