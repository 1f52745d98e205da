import Lineage.Proofs.Function.Match
import Lineage.Proofs.Keeper.Joined
import Lineage.Proofs.Outline.Contract

/-!
# Ranges of a match in its text

A range of a match is explained by a range of the text: its start is moved by the
place of the match, and its length counts from there on, but for what exceeds the
length of the text (`Found.Shifts`). This is computed in words, and where one of the
numbers is none, the whole text explains the match, as it does where the ends come
the wrong way round; of the whole of a match, its place is told
(`Found.exists_answer`). The place is within the text, so it is never limited.

As the length counts from the start of the match and no character is taken off, a
range ends one character after the last that is as far from the start. It is within
the text all the same, unless it is asked for the whole match by its range, and the
match ends where the text does (`names_inside_iff`).
-/

namespace Lineage

variable {place : Found} {r t : Range} {d : Designator}

namespace Found

/-- In integers without bounds, the range `r` of the match is shifted to the range `t` of the
    text, and its length and the ends of `t` are words. -/
structure Shifts (place : Found) (r t : Range) : Prop where
  start_eq : t.start = r.start + place.start
  stop_eq : t.stop = place.start + min (r.stop - r.start + 1) place.length
  signed_length : Word.Signed (r.stop - r.start + 1)
  bounded : t.Bounded

/-- A part of the match is mapped to a range of the text. -/
inductive Maps (place : Found) (d : Designator) (t : Range) : Prop
  | range {r : Range} (hd : d.head = .range r) (h : place.Shifts r t)
  | whole (hd : d = .identity) (hstart : t.start = place.start) (hstop : t.stop = place.stop)

/-- For a match within the text, no number of its place is limited. -/
theorem inputRange?_head_eq_some_iff (h : place.start ≤ place.length)
    (h' : place.stop ≤ place.length) :
    place.inputRange? d.head = some t ↔ place.Maps d t := by
  have hstart : min (place.start : Int) place.length = place.start := by omega
  have hstop : min (place.stop : Int) place.length = place.stop := by omega
  rw [inputRange?_eq_some_iff]
  constructor
  · rintro (⟨r, hd, ht⟩ | ⟨hd, ht⟩)
    · obtain ⟨hlength, hbounded, hs, he⟩ := inputRange?_range_eq_some_iff.1 ht
      rw [hstart] at hs he
      exact .range hd ⟨hs, he, hlength, hbounded⟩
    · obtain ⟨hs, he⟩ := inputRange?_identity_eq_some_iff.1 ht
      exact .whole (Designator.eq_of_parts (Designator.parts_eq_nil_of_head hd)) (hstart ▸ hs)
        (hstop ▸ he)
  · rintro (⟨hd, hs, he, hlength, hbounded⟩ | ⟨rfl, hs, he⟩)
    · refine .inl ⟨_, hd, inputRange?_range_eq_some_iff.2 ⟨hlength, hbounded, ?_⟩⟩
      rw [hstart]
      exact ⟨hs, he⟩
    · refine .inr ⟨rfl, inputRange?_identity_eq_some_iff.2 ?_⟩
      rw [hstart, hstop]
      exact ⟨hs, he⟩

/-- The place of a match is within the text, so that no limit changes it, and the numbers that are
    computed of it, at each step, are words. -/
structure InWords (place : Found) (matched : String) : Prop where
  start_le_stop : place.start ≤ place.stop
  stop_lt_length : place.stop < place.length
  signed : ∀ n ∈ [place.start, matched.length, place.start + matched.length, place.stop,
    place.length], Word.Signed n
  stop_eq : (place.stop : Int) = place.start + matched.length - 1
  min_start : min place.start place.length = place.start
  min_stop : min place.stop place.length = place.stop

theorem IsAt.inWords {text : String} {m : Match text} (h : place.IsAt m)
    (htext : Word.Signed text.length) : place.InWords m.text := by
  have hstart := h.start_le_stop
  have hstop := h.stop_lt_length
  have hlength := h.length_eq
  have hmatched := h.length_text
  constructor
  case start_le_stop => exact hstart
  case stop_lt_length => exact hstop
  case signed =>
    intro n hn
    have hle : n ≤ text.length := by
      simp only [List.mem_cons, List.not_mem_nil, or_false] at hn
      omega
    unfold Word.Signed at htext ⊢
    omega
  case stop_eq => omega
  case min_start => omega
  case min_stop => omega

end Found

/-- A part of a match is explained by the range of the text that it is mapped to, or, where it is
    mapped to none, by the whole text. -/
theorem Found.exists_answer {f : Function} {inputs outputs : List Value}
    (h : f.evaluate inputs = .ok ⟨outputs, .found place⟩)
    (hwords : ∀ s, .str s ∈ inputs → Word.Signed s.length) (query : Query) (d : Designator)
    (subject : FunctionId) {root : NodeId} {k : Keeper} (hroot : root < k.size) :
    (∃ matched, outputs = [.str matched] ∧ place.InWords matched) ∧
    ∃ k' id, Witness.tryAnswer query d subject root k (.found place) = .ok (k', [id]) ∧
      (∀ t, place.Maps d t →
        k'.kind? id = some (.object ⟨Designator.nest [.input 0, .range t] d.rest, subject⟩) ∧
        k'.children root = addLink (k.children root) ⟨id, .overApprox⟩) ∧
      ((∀ t, ¬place.Maps d t) →
        k.JoinedBelow k' subject root .and [Designator.compose [.input 0]] [id]) := by
  obtain ⟨p, s, matched, rfl, rfl, rfl, hfind⟩ := Function.exists_find_of_evaluate h
  obtain ⟨m, -, rfl, hplace⟩ := Pattern.exists_isAt hfind
  have hstop := Nat.le_of_lt hplace.stop_lt_length
  have hstart := Nat.le_trans hplace.start_le_stop hstop
  have hmaps {t : Range} : place.inputRange? d.head = some t ↔ place.Maps d t :=
    inputRange?_head_eq_some_iff hstart hstop
  refine ⟨⟨_, rfl, hplace.inWords (hwords s List.mem_cons_self)⟩, ?_⟩
  rw [Witness.tryAnswer_eq, Witness.answer_found]
  cases ht : place.inputRange? d.head with
  | some t =>
    refine ⟨_, _, rfl, fun t' ht' => ?_, fun hnone => absurd (hmaps.1 ht) (hnone t)⟩
    obtain rfl := Option.some.inj (ht.symm.trans (hmaps.2 ht'))
    exact ⟨Keeper.kind?_of_find? Keeper.find?_attachOne, Keeper.children_attachOne hroot⟩
  | none =>
    refine ⟨_, _, rfl, fun t ht' => absurd (ht.symm.trans (hmaps.2 ht')) nofun, fun _ => ?_⟩
    exact Keeper.joinedBelow_attachBelow hroot (List.nodup_singleton _)

/-- The longest range that has a length, from before the match on: what exceeds the length of the
    text is taken off, and the range of the text begins before it. -/
theorem Found.answer_longest :
    (Function.find manyBs).evaluate [.str "bbbb"] = .ok ⟨[.str "bbbb"], .found ⟨0, 3, 4⟩⟩ ∧
    ∃ k' id, Witness.tryAnswer .provenance
        (.compose [.range ⟨-3, 9223372036854775803, by decide⟩, .element 5]) 7 0
        Witness.backlinked (.found ⟨0, 3, 4⟩) = .ok (k', [id]) ∧
      k'.kind? id = some (.object ⟨.compose [.input 0, .range ⟨-3, 4, by decide⟩, .element 5], 7⟩) ∧
      ⟨id, .overApprox⟩ ∈ k'.children 0 := by
  have heval : (Function.find manyBs).evaluate [.str "bbbb"] =
      .ok ⟨[.str "bbbb"], .found ⟨0, 3, 4⟩⟩ := by
    rw [Function.evaluate_find, find_manyBs]
    rfl
  have hwords (s : String) (hs : .str s ∈ [Value.str "bbbb"]) : Word.Signed s.length := by
    obtain rfl := Value.str.inj (List.mem_singleton.1 hs)
    decide
  obtain ⟨-, k', id, hanswer, hmapped, -⟩ := exists_answer heval hwords .provenance
    (.compose [.range ⟨-3, 9223372036854775803, by decide⟩, .element 5]) 7
    (show 0 < Witness.backlinked.size by decide +kernel)
  obtain ⟨hkind, hchildren⟩ := hmapped ⟨-3, 4, by decide⟩
    (.range rfl ⟨rfl, rfl, by decide, by decide⟩)
  exact ⟨heval, k', id, hanswer, hkind, hchildren ▸ mem_addLink.2 (.inr rfl)⟩

/-! ### Ranges within the text -/

namespace Designator

/-- A part of the first input that names a range of it. -/
def Names (d : Designator) (t : Range) : Prop := ∃ ps, d.parts = .input 0 :: .range t :: ps

theorem names_nest_range : (nest [.input 0, .range r] d).Names t ↔ r = t := by
  simp [Names]

theorem not_names_input : ¬(compose [.input 0]).Names t := by
  simp [Names]

end Designator

variable {text matched : String}

/-- The range that a range of a match, as a pattern finds it (`isCopy_of_find`), is explained by is
    within the text, but where the whole match is asked for by its range and ends where the text
    does: then it ends one character after the text. -/
theorem names_inside_iff (h : place.IsCopy text matched) (htext : Word.Signed text.length)
    (hd : d.head = .range r) (hstart : 0 ≤ r.start) (hstop : r.stop < matched.length)
    (query : Query) (subject : FunctionId) (root : NodeId) (k : Keeper) :
    ∃ k' id d', Witness.answer query d subject root k (.found place) = (k', [id]) ∧
      k'.kind? id = some (.object ⟨d', subject⟩) ∧
      (∀ t, d'.Names t → 0 ≤ t.start ∧ t.stop ≤ text.length) ∧
      ((∀ t, d'.Names t → t.stop ≤ text.length - 1) ↔
        ¬(r.start = 0 ∧ r.stop + 1 = matched.length ∧
          place.start + matched.length = text.length)) := by
  have hle := h.start_add_le
  have hr := r.start_le_stop
  obtain ⟨k', id, d', heq, hkind, hd'⟩ := exists_answer_found place query d subject root k
  refine ⟨k', id, d', heq, hkind, ?_⟩
  rw [hd, inputRange?_range h htext hstart hstop] at hd'
  by_cases hends : r.start + place.start ≤ place.start + (r.stop - r.start + 1)
  · simp only [Range.ofEnds, dif_pos hends, Except.toOption] at hd'
    subst hd'
    simp only [Designator.names_nest_range, forall_eq']
    omega
  · -- No range is left, so none is named.
    simp only [Range.ofEnds, dif_neg hends, Except.toOption] at hd'
    subst hd'
    exact ⟨fun t ht => absurd ht Designator.not_names_input,
      iff_of_true (fun t ht => absurd ht Designator.not_names_input) (by omega)⟩

/-- The first three of four characters are explained by characters of the text. -/
theorem names_inside_bs : manyBs.find "bbbb" = ("bbbb", some ⟨0, 3, 4⟩) ∧
    ∃ k' id d', Witness.answer .provenance (.compose [.range ⟨0, 2, by decide⟩]) 7 0
        Witness.backlinked (.found ⟨0, 3, 4⟩) = (k', [id]) ∧
      k'.kind? id = some (.object ⟨d', 7⟩) ∧
      ∀ t, d'.Names t → t.stop ≤ "bbbb".length - 1 := by
  obtain ⟨k', id, d', heq, hkind, -, hiff⟩ := names_inside_iff (isCopy_of_find find_manyBs)
    (by decide) (d := .compose [.range ⟨0, 2, by decide⟩]) rfl (by decide) (by decide)
    .provenance 7 0 Witness.backlinked
  exact ⟨find_manyBs, k', id, d', heq, hkind, hiff.2 (by decide)⟩

/-- All four characters, asked for by their range, are explained by five. -/
theorem not_names_inside_bs : manyBs.find "bbbb" = ("bbbb", some ⟨0, 3, 4⟩) ∧
    Witness.answer .provenance (.compose [.range ⟨0, 3, by decide⟩]) 0 0
        (Keeper.empty.push .or).1 (.found ⟨0, 3, 4⟩) =
      (⟨#[⟨.or, [⟨1, .overApprox⟩]⟩,
        ⟨.object ⟨.compose [.input 0, .range ⟨0, 4, by decide⟩], 0⟩, []⟩]⟩, [1]) ∧
    ¬∀ t, (Designator.compose [.input 0, .range ⟨0, 4, by decide⟩]).Names t →
      t.stop ≤ "bbbb".length - 1 := by
  refine ⟨find_manyBs, by decide +kernel, fun h => ?_⟩
  have hstop := h ⟨0, 4, by decide⟩ ⟨[], rfl⟩
  exact absurd hstop (by decide)

end Lineage
