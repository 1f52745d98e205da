import Lineage.Designator

/-!
# Chains of parts

Designators are equal when their chains are, and the operations on them are
those on lists: the head and the rest are those of the list, and nesting joins
two lists, of which only the outer one may hold identities to be left out.
-/

namespace Lineage

theorem Part.element_ne_identity {n : Nat} : element n ≠ identity := nofun

theorem Part.input_ne_identity {n : Nat} : input n ≠ identity := nofun

theorem Part.output_ne_identity {n : Nat} : output n ≠ identity := nofun

namespace Designator

variable {d e : Designator} {p : Part} {ps : List Part}

theorem eq_of_parts (h : d.parts = e.parts) : d = e := by
  cases d
  cases e
  cases h
  rfl

@[simp]
theorem parts_nest : (nest ps d).parts = ps.filter (· ≠ .identity) ++ d.parts := by
  rw [nest, parts_compose, List.filter_append]
  congr 1
  rw [← parts_compose, compose_parts]

@[simp]
theorem parts_rest : d.rest.parts = d.parts.tail := by
  cases hd : d.parts with
  | nil => simp [rest, tail?, hd, identity]
  | cons p ps =>
    have htail : (compose ps).parts = ps := by
      rw [parts_compose, List.filter_eq_self]
      intro q hq
      have : q ≠ .identity := fun he => d.identity_not_mem (hd ▸ List.mem_cons_of_mem p (he ▸ hq))
      simpa using this
    cases ps with
    | nil => simp [rest, tail?, hd, identity]
    | cons q ps => simpa [rest, tail?, hd] using htail

theorem head_of_parts (h : d.parts = p :: ps) : d.head = p := by
  rw [head, h]
  rfl

theorem head_compose_cons (hp : p ≠ .identity) : (compose (p :: ps)).head = p := by
  rw [head, parts_compose, List.filter_cons_of_pos (by simpa using hp)]
  rfl

theorem head_nest_cons (hp : p ≠ .identity) : (nest (p :: ps) d).head = p :=
  head_compose_cons hp

theorem nest_nil : nest [] d = d := eq_of_parts (by simp)

theorem nest_inj : nest ps d = nest ps e ↔ d = e := by
  refine ⟨fun h => eq_of_parts ?_, congrArg _⟩
  have hparts := congrArg parts h
  rwa [parts_nest, parts_nest, List.append_cancel_left_eq] at hparts

theorem rest_nest_cons (hp : p ≠ .identity) : (nest (p :: ps) d).rest = nest ps d :=
  eq_of_parts (by simp [hp])

/-- Only the empty chain has the identity for its head. -/
theorem parts_eq_nil_of_head (h : d.head = .identity) : d.parts = [] := by
  cases hd : d.parts with
  | nil => rfl
  | cons p ps =>
    have hp : p = .identity := (head_of_parts hd).symm.trans h
    exact absurd (hd ▸ hp ▸ List.mem_cons_self) d.identity_not_mem

/-- A head that is not the identity is the first part. -/
theorem parts_eq_of_head (h : d.head = p) (hp : p ≠ .identity) : d.parts = p :: d.rest.parts := by
  rw [parts_rest]
  cases hd : d.parts with
  | nil =>
    rw [head, hd] at h
    exact absurd h.symm hp
  | cons q ps =>
    rw [← h, head_of_parts hd]
    rfl

theorem length_le_rest (d : Designator) : d.length ≤ d.rest.length + 1 := by
  rw [length, length, parts_rest, List.length_tail]
  omega

end Designator

end Lineage
