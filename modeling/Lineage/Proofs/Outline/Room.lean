import Lineage.Proofs.Outline.Answer

/-!
# Room for designators

Of all witnesses but those of quantifiers, only one that found a match makes a
designator longer: for the whole match it names a range of the input. It does so
once, as it keeps to a range that the designator has. So with the *room* for such
a range counted in, no designator becomes longer (`Unquantified.room_le`).
-/

namespace Lineage

variable {d d' : Designator} {p : Part} {r : Range}

/-- The range of the input that is told: that of a range of the match, moved by the offset of the
    match, with its end placed by its length; or that of the whole match. -/
theorem Found.of_inputRange? {f : Found} (h : f.inputRange? p = some r) :
    (∃ r', p = .range r' ∧ r.start = r'.start + min (f.start : Int) f.length ∧
      r.stop = min (f.start : Int) f.length + min (r'.stop - r'.start + 1) f.length ∧ r.Bounded) ∨
    p = .identity ∧ r.start = min (f.start : Int) f.length ∧ r.stop = min (f.stop : Int) f.length := by
  rcases inputRange?_eq_some_iff.1 h with ⟨r', rfl, h⟩ | ⟨rfl, h⟩
  · obtain ⟨-, hbounded, hstart, hstop⟩ := inputRange?_range_eq_some_iff.1 h
    exact .inl ⟨r', rfl, hstart, hstop, hbounded⟩
  · exact .inr ⟨rfl, inputRange?_identity_eq_some_iff.1 h⟩

namespace Designator

/-- How long the designator can become where it has no range yet and may get one. -/
def room (d : Designator) : Nat := d.length + if d.parts.any Part.isRange then 0 else 1

theorem length_le_room (d : Designator) : d.length ≤ d.room := Nat.le_add_right _ _

theorem room_pos (d : Designator) : 1 ≤ d.room := by
  rw [room, length]
  cases hd : d.parts with
  | nil => exact Nat.le_refl 1
  | cons p ps => exact Nat.le_trans (Nat.succ_pos ps.length) (Nat.le_add_right _ _)

theorem room_of_parts_cons {e : Designator} (hd : d.parts = p :: e.parts)
    (hp : p.isRange = false) : d.room = e.room + 1 := by
  rw [room, room, length, length, hd, List.length_cons, List.any_cons, hp, Bool.false_or]
  omega

/-- A step that is no range takes its room. -/
theorem room_of_head (hd : d.head = p) (hp : p ≠ .identity) (hrange : p.isRange = false) :
    d.room = d.rest.room + 1 :=
  room_of_parts_cons (parts_eq_of_head hd hp) hrange

theorem room_nest_cons {ps : List Part} (hp : p ≠ .identity) (hrange : p.isRange = false) :
    (nest (p :: ps) d).room = (nest ps d).room + 1 :=
  room_of_parts_cons (by simp [hp]) hrange

theorem room_of_range {e : Designator} (hd : d.parts = .range r :: e.parts) :
    d.room = e.length + 1 := by
  rw [room, length, hd, List.any_cons]
  rfl

end Designator

namespace Witness

/-- The witness is not of a quantifier, nor is that of any element. -/
inductive Unquantified : Witness → Prop where
  | linkAll (arity : Nat) : Unquantified (linkAll arity)
  | forked : Unquantified forked
  | found (place : Found) : Unquantified (found place)
  | applied {elements : List Witness} (h : ∀ w ∈ elements, Unquantified w) :
      Unquantified (applied elements)

theorem room_le_of_mem_allInputs {arity : Nat} (h : d' ∈ (Outline.allInputs arity).parts) :
    d'.room ≤ d.room + 1 := by
  obtain ⟨i, -, rfl⟩ := mem_allInputs_iff.1 h
  exact Nat.succ_le_succ d.room_pos

theorem room_elementPart {n : Nat} : (elementPart n d).room = d.room + 2 := by
  rw [elementPart, Designator.room_nest_cons Part.input_ne_identity rfl,
    Designator.room_nest_cons Part.element_ne_identity rfl, Designator.nest_nil]

/-- To move a part to an element puts one step before it. -/
theorem room_moveToElement {w : Witness} {query : Query} {n : Nat}
    (h : d' ∈ (w.outline query d).parts) : (moveToElement n d').room = d'.room + 1 := by
  obtain ⟨i, -, hhead⟩ := head_of_mem_outline h
  rw [moveToElement, hhead]
  dsimp only
  rw [room_elementPart, Designator.room_of_head hhead Part.input_ne_identity rfl]

/-- What explains a part of an output has room for no more than the part and the
    pin. -/
theorem Unquantified.room_le {w : Witness} {query : Query} (hw : w.Unquantified)
    (h : d' ∈ (w.outline query d).parts) : d'.room ≤ d.room + 1 := by
  induction hw generalizing d d' with
  | linkAll arity =>
    rw [outline] at h
    exact room_le_of_mem_allInputs h
  | forked =>
    rw [outline] at h
    obtain rfl := List.mem_singleton.1 h
    have hroom : (Designator.nest [.input 0] d).room = d.room + 1 := by
      rw [Designator.room_nest_cons Part.input_ne_identity rfl, Designator.nest_nil]
    exact Nat.le_of_eq hroom
  | found place =>
    rcases mem_outline_found h with ⟨r, hr, rfl⟩ | h
    · have hrange : (Designator.nest [.range r] d.rest).room = d.rest.length + 1 :=
        Designator.room_of_range (r := r) (by simp)
      rw [Designator.room_nest_cons Part.input_ne_identity rfl, hrange]
      -- The part of the match is a range, or the whole of it.
      cases hd : d.head with
      | range r' =>
        have hroom : d.room = d.rest.length + 1 :=
          Designator.room_of_range (Designator.parts_eq_of_head hd nofun)
        exact Nat.succ_le_succ (Nat.le_of_eq hroom.symm)
      | identity =>
        have hrest : d.rest.length = 0 := by
          rw [Designator.length, Designator.parts_rest, Designator.parts_eq_nil_of_head hd]
          rfl
        have := d.room_pos
        omega
      | _ =>
        rw [hd] at hr
        cases hr
    · exact room_le_of_mem_allInputs h
  | applied _ ih =>
    rcases mem_outline_applied h with ⟨n, w, e, hn, hw, he, rfl⟩ | h
    · have hle : e.room ≤ d.rest.room + 1 := ih w hw he
      rw [Designator.room_of_head hn Part.element_ne_identity rfl, room_moveToElement he]
      exact Nat.succ_le_succ hle
    · exact room_le_of_mem_allInputs h

end Witness

end Lineage
