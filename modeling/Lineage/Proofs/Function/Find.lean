import Lineage.Pattern.Standard
import Lineage.Proofs.Function.Evaluation

/-!
# Places of matches

A match is found between two offsets of bytes, neither of which is inside a
character. What is told of it is counted in characters: how many there are before
the match, in it, and in the whole string. Whatever bytes the characters take, the
characters at the place told are those of the match (`Match.told_cases`). A match
without characters is told as none.

So a pattern tells of a place just if it matches at least one character, and then
of the place where it does (`Function.exists_found_iff`). This holds of all patterns,
whatever engine compiled them.
-/

namespace Lineage

/-- The place, counted in characters, is that of the match. -/
structure Found.IsAt (place : Found) {s : String} (m : Match s) : Prop where
  start_le_stop : place.start ≤ place.stop
  stop_lt_length : place.stop < place.length
  length_eq : place.length = s.length
  /-- The characters from the first to the last spell the text matched. -/
  spelled : (s.toList.drop place.start).take (place.stop + 1 - place.start) = m.text.toList
  /-- The characters before the first take the bytes before the match. -/
  start_offset : (String.ofList (s.toList.take place.start)).rawEndPos = m.start.offset
  /-- The characters up to the last take the bytes up to the end of the match. -/
  stop_offset : (String.ofList (s.toList.take (place.stop + 1))).rawEndPos = m.stop.offset

theorem Found.IsAt.length_text {place : Found} {s : String} {m : Match s} (h : place.IsAt m) :
    m.text.length = place.stop + 1 - place.start := by
  have hstop := h.stop_lt_length
  have hlength := h.length_eq
  rw [← String.length_toList, ← h.spelled, List.length_take, List.length_drop,
    String.length_toList]
  omega

namespace Match

variable {s t₁ t₂ : String} {m : Match s}

/-- The string is what is before the match, the text matched, and what is after it. -/
theorem exists_splits (m : Match s) : ∃ t₁ t₂, m.start.Splits t₁ (m.text ++ t₂) ∧
    m.stop.Splits (t₁ ++ m.text) t₂ :=
  String.copy_slice_eq_iff_splits.1 ⟨m.start_le_stop, (String.extract_eq_copy_slice ..).symm⟩

theorem before_eq (h : m.start.Splits t₁ t₂) : m.before = t₁.length := by
  obtain ⟨u₁, u₂, hstart, hm⟩ := String.copy_slice_eq_iff_splits.1
    ⟨String.Pos.startPos_le m.start, (String.extract_eq_copy_slice ..).symm⟩
  obtain ⟨rfl, -⟩ := String.splits_startPos_iff.1 hstart
  rw [before, h.eq_left hm, String.empty_append]

theorem text_eq_empty_iff : m.text = "" ↔ m.start = m.stop := by
  rw [text, String.extract_eq_copy_slice _ _ m.start_le_stop, ← String.isEmpty_iff,
    String.Slice.isEmpty_copy, String.isEmpty_slice]

/-- The place told of a match that is not empty. -/
theorem isAt (h : m.text ≠ "") :
    (⟨m.before, m.before + m.text.length - 1, s.length⟩ : Found).IsAt m := by
  obtain ⟨t₁, t₂, hstart, hstop⟩ := m.exists_splits
  have hpos : 0 < m.text.length := Nat.pos_of_ne_zero fun h0 => h (String.length_eq_zero_iff.1 h0)
  have hs : s.toList = t₁.toList ++ (m.text.toList ++ t₂.toList) := by
    rw [← String.toList_append, ← String.toList_append, ← hstart.eq_append]
  have hlength : s.length = t₁.length + (m.text.length + t₂.length) := by
    rw [← String.length_append, ← String.length_append, ← hstart.eq_append]
  have hlast : t₁.length + m.text.length - 1 + 1 = t₁.length + m.text.length := by omega
  rw [before_eq hstart]
  constructor
  case start_le_stop => dsimp only; omega
  case stop_lt_length => dsimp only; omega
  case length_eq => rfl
  case spelled =>
    dsimp only
    rw [hlast, Nat.add_sub_cancel_left, hs, List.drop_left' String.length_toList,
      List.take_left' String.length_toList]
  case start_offset =>
    dsimp only
    rw [hs, List.take_left' String.length_toList, String.ofList_toList,
      hstart.offset_eq_rawEndPos]
  case stop_offset =>
    dsimp only
    rw [hlast, hs, ← List.append_assoc, ← String.toList_append, ← String.length_append,
      List.take_left' String.length_toList, String.ofList_toList, hstop.offset_eq_rawEndPos]

/-- What is told of a match is its place, unless it is empty. -/
theorem told_cases (m : Match s) : m.start = m.stop ∧ m.told = ("", none) ∨
    m.start ≠ m.stop ∧ ∃ place, m.told = (m.text, some place) ∧ place.IsAt m := by
  by_cases h : m.text = ""
  · exact .inl ⟨text_eq_empty_iff.1 h, if_pos (String.isEmpty_iff.2 h)⟩
  · exact .inr ⟨mt text_eq_empty_iff.2 h, _, if_neg (mt String.isEmpty_iff.1 h), isAt h⟩

end Match

/-- A pattern tells of the place of a match that is not empty, and otherwise of none. -/
theorem Pattern.find_cases (p : Pattern) (s : String) :
    (∃ m place, p.locate? s = some m ∧ m.start ≠ m.stop ∧ p.find s = (m.text, some place) ∧
      place.IsAt m) ∨
    (∀ m, p.locate? s = some m → m.start = m.stop) ∧ p.find s = ("", none) := by
  rw [find]
  cases h : p.locate? s with
  | none => exact .inr ⟨fun _ hm => absurd hm nofun, rfl⟩
  | some m =>
    rcases m.told_cases with ⟨hempty, htold⟩ | ⟨hne, place, htold, hplace⟩
    · exact .inr ⟨fun _ hm => Option.some.inj hm ▸ hempty, htold⟩
    · exact .inl ⟨m, place, rfl, hne, htold, hplace⟩

variable {p : Pattern} {s matched : String} {place : Found}

theorem Pattern.exists_isAt (h : p.find s = (matched, some place)) :
    ∃ m, p.locate? s = some m ∧ m.text = matched ∧ place.IsAt m := by
  rcases p.find_cases s with ⟨m, place', hm, -, hfind, hplace⟩ | ⟨-, hfind⟩
  · obtain ⟨htext, hsome⟩ := Prod.mk.inj (hfind.symm.trans h)
    exact ⟨m, hm, htext, Option.some.inj hsome ▸ hplace⟩
  · exact absurd (Prod.mk.inj (hfind.symm.trans h)).2 nofun

namespace Function

theorem evaluate_find : (find p).evaluate [.str s] =
    .ok ⟨[.str (p.find s).1], (p.find s).2.elim (.linkAll 1) .found⟩ := by
  have hs : onlyInput (find p) .string Value.asStr? [.str s] = .ok s := rfl
  rw [evaluate, hs]
  dsimp only [bind, Except.bind]
  rcases p.find s with ⟨matched, _ | place⟩ <;> rfl

/-- A place is found just if there is a match that is not empty, and then it is the place of the
    match, counted in characters; otherwise nothing is found, and the whole input is linked. -/
theorem exists_found_iff (p : Pattern) (s : String) :
    ((∃ place, (p.find s).2 = some place) ↔ ∃ m, p.locate? s = some m ∧ m.start ≠ m.stop) ∧
    (∀ place, (p.find s).2 = some place → ∃ m, p.locate? s = some m ∧ (p.find s).1 = m.text ∧
      place.IsAt m ∧ (find p).evaluate [.str s] = .ok ⟨[.str m.text], .found place⟩) ∧
    ((p.find s).2 = none → (p.find s).1 = "" ∧
      (find p).evaluate [.str s] = .ok ⟨[.str ""], .linkAll 1⟩) := by
  rw [evaluate_find]
  rcases p.find_cases s with ⟨m, place, hm, hne, hfind, hplace⟩ | ⟨hempty, hfind⟩
  · rw [hfind]
    refine ⟨iff_of_true ⟨place, rfl⟩ ⟨m, hm, hne⟩, fun place' h => ?_, nofun⟩
    obtain rfl := Option.some.inj h
    exact ⟨m, hm, rfl, hplace, rfl⟩
  · rw [hfind]
    exact ⟨iff_of_false (fun ⟨_, h⟩ => absurd h nofun) fun ⟨m, hm, hne⟩ => hne (hempty m hm),
      fun _ h => absurd h nofun, fun _ => ⟨rfl, rfl⟩⟩

theorem onlyInput_eq_ok_iff {α : Type} {f : Function} {kind : Kind} {view : Value → Option α}
    {inputs : List Value} {a : α} :
    f.onlyInput kind view inputs = .ok a ↔ ∃ v, inputs = [v] ∧ view v = some a := by
  rw [onlyInput.eq_def]
  split
  · next v =>
    rw [Operator.expect]
    cases hv : view v <;> simp [hv]
  · next hne =>
    constructor
    · intro h
      cases h
    · rintro ⟨v, rfl, -⟩
      exact absurd rfl (hne v)

/-- Only a search leaves the place of a match. -/
theorem exists_find_of_evaluate {f : Function} {inputs outputs : List Value}
    (h : f.evaluate inputs = .ok ⟨outputs, .found place⟩) : ∃ p s matched, f = find p ∧
      inputs = [.str s] ∧ outputs = [.str matched] ∧ p.find s = (matched, some place) := by
  cases f with
  | nary op arity =>
    rw [evaluate] at h
    obtain ⟨-, -, h⟩ := exists_of_bind_ok h
    obtain ⟨output, -, h⟩ := exists_of_bind_ok h
    cases congrArg Evaluation.witness (Except.ok.inj h)
  | quantifier q =>
    rw [evaluate] at h
    obtain ⟨list, -, h⟩ := exists_of_bind_ok h
    cases congrArg Evaluation.witness (Except.ok.inj h)
  | find p =>
    have hinputs := h
    rw [evaluate] at hinputs
    obtain ⟨s, hs, -⟩ := exists_of_bind_ok hinputs
    obtain ⟨v, rfl, hv⟩ := onlyInput_eq_ok_iff.1 hs
    obtain rfl : v = .str s := by cases v <;> simp_all [Value.asStr?]
    rw [evaluate_find] at h
    obtain ⟨houtputs, hw⟩ := Evaluation.mk.inj (Except.ok.inj h)
    cases hfind : (p.find s).2 with
    | none =>
      rw [hfind] at hw
      cases hw
    | some place' =>
      rw [hfind] at hw
      obtain rfl := Witness.found.inj hw
      exact ⟨p, s, _, rfl, rfl, houtputs.symm, Prod.ext rfl hfind⟩
  | fork arity =>
    rw [evaluate.eq_def] at h
    dsimp only at h
    split at h
    · cases congrArg Evaluation.witness (Except.ok.inj h)
    · cases h
  | applyToAll template =>
    rw [evaluate] at h
    obtain ⟨list, -, h⟩ := exists_of_bind_ok h
    obtain ⟨evaluations, -, h⟩ := exists_of_bind_ok h
    cases congrArg Evaluation.witness (Except.ok.inj h)
  | foreign g =>
    rw [evaluate] at h
    obtain ⟨-, -, h⟩ := exists_of_bind_ok h
    obtain ⟨outputs, -, h⟩ := exists_of_bind_ok h
    cases congrArg Evaluation.witness (Except.ok.inj h)

end Function

/-- The program for characters `b`, at least one. -/
def Pattern.Program.manyBs : Program := ⟨2, #[.done, .choose 2 0, .take #[(98, 98)] 1]⟩

/-- Characters `b`, at least one. -/
def manyBs : Pattern := ⟨"b+", Pattern.Program.manyBs.locate?⟩

theorem read_manyBs : Pattern.read "b+" = .ok manyBs :=
  Pattern.read_of_ofSource? (by decide +kernel)

theorem locate?_manyBs {start stop : Nat}
    (h : Pattern.Program.manyBs.search s.toList = some (start, stop)) :
    manyBs.locate? s = some (.ofPlaces s start stop) := Pattern.Program.locate?_of_search h

/-- The program takes no other character. -/
theorem contains_b {c : Char} : Text.Spans.contains #[(98, 98)] c = decide (c.toNat = 98) := by
  have h : Text.Spans.contains #[(98, 98)] c =
      (!decide (c.toNat < 98) && !decide (98 < c.toNat)) := by
    simp [Text.Spans.contains, Text.Spans.searchBetween]
  grind

theorem locate?_accented : manyBs.locate? "ééb" = some (.ofPlaces "ééb" 2 3) := by
  refine locate?_manyBs ?_
  simp [Pattern.Program.manyBs, Pattern.Program.search, Pattern.Program.searchFrom,
    Pattern.Program.explore, Pattern.Program.fuel, Pattern.Program.number,
    Std.HashSet.contains_insert, contains_b]

/-- The third character is found, which comes after four bytes. -/
theorem Function.found_accented : Pattern.read "b+" = .ok manyBs ∧
    (Match.ofPlaces "ééb" 2 3).start.offset.byteIdx = 4 ∧
    manyBs.find "ééb" = ("b", some ⟨2, 2, 3⟩) ∧
    (⟨2, 2, 3⟩ : Found).IsAt (Match.ofPlaces "ééb" 2 3) := by
  have hfind : manyBs.find "ééb" = ("b", some ⟨2, 2, 3⟩) := by
    rw [Pattern.find, locate?_accented]
    decide
  obtain ⟨m, hm, -, hplace, -⟩ := (exists_found_iff manyBs "ééb").2.1 ⟨2, 2, 3⟩ (by rw [hfind])
  obtain rfl := Option.some.inj (locate?_accented.symm.trans hm)
  exact ⟨read_manyBs, by decide, hfind, hplace⟩

end Lineage
