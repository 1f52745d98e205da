import Lineage.Part

/-!
# Designators

A designator is a chain of parts, its *head* first: `out0/#2/I1-3` is
characters 1 to 3 of element 2 of the first output. The empty chain designates
the whole; the identity is no step, so no chain contains it.

Chains of more than one range are searched from either end: the range a
designator mentions, and the one replaced, are the closest to the head; the one
removed is the closest to the tail.
-/

namespace Lineage

/-- A chain of parts, head first. -/
structure Designator where
  parts : List Part
  identity_not_mem : Part.identity ∉ parts
deriving Repr, DecidableEq

namespace Designator

/-- The empty chain. -/
def identity : Designator := ⟨[], by simp⟩

instance : Inhabited Designator := ⟨identity⟩

/-- The chain of the given parts, without the identities among them. -/
def compose (parts : List Part) : Designator :=
  ⟨parts.filter (· ≠ .identity), by simp⟩

@[simp]
theorem parts_compose (parts : List Part) :
    (compose parts).parts = parts.filter (· ≠ .identity) := rfl

theorem compose_parts (d : Designator) : compose d.parts = d := by
  obtain ⟨parts, h⟩ := d
  simp only [compose, mk.injEq, List.filter_eq_self, decide_eq_true_eq]
  exact fun p hp he => h (he ▸ hp)

/-- The chain of the parts `outer` followed by the whole of `inner`. -/
def nest (outer : List Part) (inner : Designator) : Designator := compose (outer ++ inner.parts)

/-- The number of parts. -/
def length (d : Designator) : Nat := d.parts.length

def isIdentity (d : Designator) : Bool := d.parts.isEmpty

/-- The first part; the identity heads the empty chain. -/
def head (d : Designator) : Part := d.parts.head?.getD .identity

/-- The chain without its head, when something remains. -/
def tail? (d : Designator) : Option Designator :=
  if d.parts.length ≤ 1 then none else some (compose d.parts.tail)

/-- The chain without its head. -/
def rest (d : Designator) : Designator := d.tail?.getD identity

/-- The head is a step into the target. -/
def appliesTo (d : Designator) (target : Target) : Bool := d.head.appliesTo target

/-- The range closest to the head: of those met on the way from the tail, the
    last. -/
def mentionedRange? (d : Designator) : Option Range :=
  d.parts.foldr (fun p found => p.range?.or found) none

/-- The parts that are kept, and whether one was removed already, on the way from
    the tail: the first range that is met is removed. -/
def dropRange (parts : List Part) : List Part × Bool :=
  parts.foldr
    (fun p (kept, removed) => if p.isRange && !removed then (kept, true) else (p :: kept, removed))
    ([], false)

/-- The chain without the range closest to the tail. -/
def removeRange (d : Designator) : Designator := compose (dropRange d.parts).1

/-- The chain with the range closest to the head replaced by `p`, if it has a
    range. -/
def replaceRange? (d : Designator) (p : Part) : Option Designator :=
  (d.parts.findIdx? Part.isRange).map fun i => compose (d.parts.set i p)

/-- The chain with the range closest to the head replaced by `p`. -/
def replaceRange (d : Designator) (p : Part) : Designator := (d.replaceRange? p).getD d

/-- The numbers in the chain are words. -/
def Bounded (d : Designator) : Prop := ∀ p ∈ d.parts, p.Bounded

instance : DecidablePred Bounded := fun d => inferInstanceAs (Decidable (∀ p ∈ d.parts, p.Bounded))

/-! ### The printed form -/

/-- The printed form: the parts between slashes, or `*` for the empty chain. -/
def text (d : Designator) : String :=
  if d.parts.isEmpty then Part.identity.text else String.intercalate "/" (d.parts.map Part.text)

/-- The segments of a text between slashes, at least one. -/
def segments : List Char → List (List Char)
  | [] => [[]]
  | c :: s =>
    if c = '/' then [] :: segments s
    else match segments s with
      | [] => [[c]]
      | segment :: rest => (c :: segment) :: rest

/-- The designator that a text denotes; the first segment that is no part makes
    the error. -/
def read (s : String) : Except Error Designator :=
  return compose (← (segments s.toList).mapM Part.ofChars)

end Designator

end Lineage
