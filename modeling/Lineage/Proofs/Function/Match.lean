import Lineage.Proofs.Designator.Chain
import Lineage.Proofs.Function.Find
import Lineage.Proofs.Outline.Answer

/-!
# What explains a match

A pattern copies a run of characters of the text that it searches (`isCopy_of_find`).
A range of the match is explained by a range of the text, which is to contain what
the range was copied from.

The range of the text begins where it should. It ends as many characters after the
match begins as the range is long, wherever in the match the range stands. So a
range that begins with the first or the second character of the match is explained
by all that it was copied from, and so is one that begins beyond its own length: no
range of the text is left for it then, and the whole text explains it. Other ranges
are explained by too little (`contains_copied_iff`).
-/

namespace Lineage

variable {p : Pattern} {text matched : String} {place : Found} {d : Designator} {r : Range}

/-- The match is a copy of the text at the place where it was found. -/
structure Found.IsCopy (place : Found) (text matched : String) : Prop where
  length_eq : place.length = text.length
  start_add_le : place.start + matched.length ≤ text.length
  getElem? : ∀ n < matched.length, matched.toList[n]? = text.toList[place.start + n]?

/-- A pattern finds copies. -/
theorem isCopy_of_find (h : p.find text = (matched, some place)) : place.IsCopy text matched := by
  obtain ⟨m, -, rfl, hplace⟩ := Pattern.exists_isAt h
  have hstart := hplace.start_le_stop
  have hstop := hplace.stop_lt_length
  have hlength := hplace.length_eq
  have htext := hplace.length_text
  refine ⟨hlength, by omega, fun n hn => ?_⟩
  rw [← hplace.spelled, List.getElem?_take_of_lt (by omega), List.getElem?_drop]

namespace Designator

/-- The character at position `n` of the first input is in the part. -/
def Contains (d : Designator) (n : Int) : Prop :=
  match d.parts with
  | [.input 0] => True
  | .input 0 :: .range r :: _ => n ∈ r
  | _ => False

theorem contains_input {n : Int} : (compose [.input 0]).Contains n := trivial

theorem contains_nest_range {n : Int} : (nest [.input 0, .range r] d).Contains n ↔ n ∈ r := by
  simp [Contains]

end Designator

/-- The range of the text that a range of the match is explained by, if its ends
    are in order. -/
theorem inputRange?_range (h : place.IsCopy text matched) (htext : Word.Signed text.length)
    (hstart : 0 ≤ r.start) (hstop : r.stop < matched.length) :
    place.inputRange? (.range r) =
      (Range.ofEnds (r.start + place.start) (place.start + (r.stop - r.start + 1))).toOption := by
  have hle := h.start_add_le
  have hlength := h.length_eq
  have hr := r.start_le_stop
  -- No number here is greater than the length of the text, and so all are words.
  have hword {i : Int} (h : 0 ≤ i) (h' : i ≤ text.length) : Word.Signed i :=
    ⟨by omega, Int.lt_of_le_of_lt h' htext.2⟩
  have hoffset : min (place.start : Int) place.length = place.start := by omega
  have hmin : min (r.stop - r.start + 1) (place.length : Int) = r.stop - r.start + 1 := by omega
  ext t
  rw [Found.inputRange?_range_eq_some_iff, Range.toOption_ofEnds_eq_some_iff, hoffset, hmin]
  constructor
  · exact fun h => h.2.2
  · rintro ⟨hs, he⟩
    exact ⟨hword (by omega) (by omega), ⟨hword (by omega) (by omega), hword (by omega) (by omega)⟩,
      hs, he⟩

section Answer

variable (place : Found) (query : Query) (d : Designator) (subject : FunctionId) (root : NodeId)
  (k : Keeper)

/-- What explains a part of a match is a single part of the text. -/
theorem exists_answer_found : ∃ k' id d',
    Witness.answer query d subject root k (.found place) = (k', [id]) ∧
      k'.kind? id = some (.object ⟨d', subject⟩) ∧
      d' = match place.inputRange? d.head with
        | some r => Designator.nest [.input 0, .range r] d.rest
        | none => Designator.compose [.input 0] := by
  rw [Witness.answer_found]
  cases place.inputRange? d.head with
  | some r => exact ⟨_, _, _, rfl, Keeper.kind?_of_find? Keeper.find?_attachOne, rfl⟩
  | none =>
    -- The link from the root is made last.
    refine ⟨_, _, _, rfl, Keeper.kind?_addChild.trans ?_, rfl⟩
    exact Keeper.kind?_of_find? Keeper.find?_attachOne

end Answer

/-- A range of a match, as a pattern finds it (`isCopy_of_find`), is explained by all
    characters that it was copied from just if it begins with one of the first two
    characters of the match, or beyond its own length. -/
theorem contains_copied_iff (h : place.IsCopy text matched) (htext : Word.Signed text.length)
    (hd : d.head = .range r) (hstart : 0 ≤ r.start) (hstop : r.stop < matched.length)
    (query : Query) (subject : FunctionId) (root : NodeId) (k : Keeper) :
    (∀ n : Nat, (n : Int) ∈ r → matched.toList[n]? = text.toList[place.start + n]?) ∧
      ∃ k' id d', Witness.answer query d subject root k (.found place) = (k', [id]) ∧
        k'.kind? id = some (.object ⟨d', subject⟩) ∧
        ((∀ n ∈ r, d'.Contains (place.start + n)) ↔
          r.start ≤ 1 ∨ r.stop + 1 < 2 * r.start) := by
  have hr := r.start_le_stop
  refine ⟨fun n hn => ?_, ?_⟩
  · have := hn.2
    exact h.getElem? n (by omega)
  · obtain ⟨k', id, d', heq, hkind, hd'⟩ := exists_answer_found place query d subject root k
    refine ⟨k', id, d', heq, hkind, ?_⟩
    rw [hd, inputRange?_range h htext hstart hstop] at hd'
    by_cases hends : r.start + place.start ≤ place.start + (r.stop - r.start + 1)
    · simp only [Range.ofEnds, dif_pos hends, Except.toOption] at hd'
      subst hd'
      simp only [Designator.contains_nest_range, Range.mem_iff]
      constructor
      · intro hall
        have := hall r.stop ⟨hr, Int.le_refl _⟩
        omega
      · intro hor n hn
        omega
    · -- No range is left, and the whole text explains the match.
      simp only [Range.ofEnds, dif_neg hends, Except.toOption] at hd'
      subst hd'
      exact iff_of_true (fun _ _ => Designator.contains_input) (by omega)

theorem find_manyBs : manyBs.find "bbbb" = ("bbbb", some ⟨0, 3, 4⟩) := by
  have hmatch : Pattern.Program.manyBs.search "bbbb".toList = some (0, 4) := by
    simp [Pattern.Program.manyBs, Pattern.Program.search, Pattern.Program.searchFrom,
      Pattern.Program.explore, Pattern.Program.fuel, Pattern.Program.number,
      Std.HashSet.contains_insert, contains_b]
  rw [Pattern.find, locate?_manyBs hmatch]
  decide

/-- The last three of four characters are explained by the second and the third
    and the fourth. -/
theorem contains_copied_bs : manyBs.find "bbbb" = ("bbbb", some ⟨0, 3, 4⟩) ∧
    ∃ k' id d', Witness.answer .provenance (Designator.compose [.range ⟨1, 3, by decide⟩]) 0 0
        (Keeper.empty.push .or).1 (.found ⟨0, 3, 4⟩) = (k', [id]) ∧
      k'.kind? id = some (.object ⟨d', 0⟩) ∧
      ∀ n ∈ (⟨1, 3, by decide⟩ : Range), d'.Contains n := by
  obtain ⟨-, k', id, d', heq, hkind, hiff⟩ := contains_copied_iff (isCopy_of_find find_manyBs)
    (by decide) (d := Designator.compose [.range ⟨1, 3, by decide⟩]) rfl (by decide) (by decide)
    .provenance 0 0 (Keeper.empty.push .or).1
  exact ⟨find_manyBs, k', id, d', heq, hkind, by simpa using hiff.2 (by decide)⟩

/-- The last two of four characters are explained by the third alone, by a link
    that says it contains all that they depend on. -/
theorem not_contains_copied_bs : manyBs.find "bbbb" = ("bbbb", some ⟨0, 3, 4⟩) ∧
    Witness.answer .provenance (Designator.compose [.range ⟨2, 3, by decide⟩]) 0 0
        (Keeper.empty.push .or).1 (.found ⟨0, 3, 4⟩) =
      (⟨#[⟨.or, [⟨1, .overApprox⟩]⟩,
        ⟨.object ⟨Designator.compose [.input 0, .range ⟨2, 2, by decide⟩], 0⟩, []⟩]⟩, [1]) ∧
    ¬∀ n ∈ (⟨2, 3, by decide⟩ : Range),
      (Designator.compose [.input 0, .range ⟨2, 2, by decide⟩]).Contains n := by
  refine ⟨find_manyBs, by decide +kernel, ?_⟩
  intro h
  have h3 : (3 : Int) ∈ (⟨2, 2, by decide⟩ : Range) :=
    Designator.contains_nest_range (d := .identity).1 (h 3 (by decide))
  exact absurd h3 (by decide)

end Lineage
