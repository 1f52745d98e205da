import Lineage.Proofs.Designator.Written

/-!
# Printed designators

A designator is read back from its printed form, and so no two are printed alike: each
part is printed as one of the texts that are written for it (`Part.writes_text`), without
white space and without slashes, and the slashes between parts are where the text is
split (`Designator.splitOn_text`).
-/

namespace Lineage

variable {s : List Char} {c : Char}

namespace Part

variable {p : Part}

/-! ### Numbers -/

theorem writesDigits_toDigits (n : Nat) : WritesDigits (Nat.toDigits 10 n) n where
  ne_nil := Nat.toDigits_ne_nil
  isDigit _ hc := Nat.isDigit_of_mem_toDigits (by decide) (Nat.le_refl 10) hc
  value := Decimal.ofDigits_toDigits n

theorem writesIndex_toString {n : Nat} (h : Word.Unsigned n) :
    WritesIndex (toString n).toList n := by
  rw [Nat.toString_eq_repr, Nat.toList_repr]
  exact ⟨writesDigits_toDigits n, h⟩

theorem writesPosition_toString {i : Int} (h : Word.Signed i) :
    WritesPosition (toString i).toList i := by
  rw [Int.toString_eq_repr]
  cases i with
  | ofNat n =>
    rw [Int.repr, Nat.toList_repr]
    exact .plain (writesDigits_toDigits n) h
  | negSucc n =>
    rw [Int.repr, String.toList_append, Nat.toList_repr]
    exact .minus (writesDigits_toDigits (n + 1)) h

/-! ### Parts -/

/-- The text of a part is one that is written for it. -/
theorem writes_text (h : p.Bounded) : Writes p.text.toList p := by
  cases p with
  | identity => exact .identity
  | range r =>
    rw [text, Range.text]
    split
    · next hlt =>
      have htext : s!"I{r.start}-{r.stop}".toList =
          'I' :: ((toString r.start).toList ++ '-' :: (toString r.stop).toList) := by
        simp only [String.toList_append, List.append_assoc]
        rfl
      exact htext ▸ .range (writesPosition_toString h.1) (writesPosition_toString h.2)
    · next hlt =>
      -- A range that is no longer than one position is that position.
      obtain ⟨start, stop, hle⟩ := r
      obtain rfl : start = stop := Int.le_antisymm hle (Int.not_lt.1 hlt)
      have htext : s!"I{start}".toList = 'I' :: (toString start).toList := String.toList_append
      exact htext ▸ .single (writesPosition_toString h.1)
  | element n =>
    have htext : (element n).text.toList = '#' :: (toString n).toList := String.toList_append
    exact htext ▸ .element (writesIndex_toString h)
  | input n =>
    have htext : (input n).text.toList = 'i' :: 'n' :: (toString n).toList := String.toList_append
    exact htext ▸ .input (writesIndex_toString h)
  | output n =>
    have htext : (output n).text.toList = 'o' :: 'u' :: 't' :: (toString n).toList :=
      String.toList_append
    exact htext ▸ .output (writesIndex_toString h)

/-- The signs and letters in the texts of parts. -/
def letters : List Char := ['*', '-', 'I', '#', 'i', 'n', 'o', 'u', 't']

/-- A character that stands in the text of a part. -/
def IsPrinting (c : Char) : Prop := c.isDigit = true ∨ c ∈ letters

instance : DecidablePred IsPrinting := fun _ => inferInstanceAs (Decidable (_ ∨ _))

theorem WritesDigits.isPrinting {n : Nat} (h : WritesDigits s n) : ∀ c ∈ s, IsPrinting c :=
  fun c hc => .inl (h.isDigit c hc)

theorem WritesPosition.isPrinting {i : Int} (h : WritesPosition s i) : ∀ c ∈ s, IsPrinting c := by
  cases h with
  | plain h => exact h.isPrinting
  | minus h => exact List.forall_mem_cons.2 ⟨by decide, h.isPrinting⟩

theorem Writes.isPrinting (h : Writes s p) : ∀ c ∈ s, IsPrinting c := by
  cases h with
  | identity => exact List.forall_mem_singleton.2 (by decide)
  | single h => exact List.forall_mem_cons.2 ⟨by decide, h.isPrinting⟩
  | range hs ht =>
    rw [List.forall_mem_cons, List.forall_mem_append, List.forall_mem_cons]
    exact ⟨by decide, hs.isPrinting, by decide, ht.isPrinting⟩
  | element h => exact List.forall_mem_cons.2 ⟨by decide, h.1.isPrinting⟩
  | input h =>
    rw [List.forall_mem_cons, List.forall_mem_cons]
    exact ⟨by decide, by decide, h.1.isPrinting⟩
  | output h =>
    rw [List.forall_mem_cons, List.forall_mem_cons, List.forall_mem_cons]
    exact ⟨by decide, by decide, by decide, h.1.isPrinting⟩

theorem isBlank_of_isPrinting (h : IsPrinting c) : Text.isBlank c = false := by
  rcases h with h | h
  · exact Text.of_isDigit (P := fun c => Text.isBlank c = false) (by decide +kernel) h
  · have hletters : letters.all (!Text.isBlank ·) = true := by decide
    simpa using List.all_eq_true.1 hletters c h

theorem IsPrinting.ne_slash (h : IsPrinting c) : c ≠ '/' := by
  rintro rfl
  exact absurd h (by decide)

end Part

/-- A text without white space is not trimmed. -/
theorem Text.trim_eq_self (h : ∀ c ∈ s, isBlank c = false) : trim s = s := by
  have hdrop {s : List Char} (h : ∀ c ∈ s, isBlank c = false) : s.dropWhile isBlank = s := by
    cases s with
    | nil => rfl
    | cons c s => exact List.dropWhile_cons_of_neg (by simp [h c List.mem_cons_self])
  rw [trim, hdrop h, hdrop fun c hc => h c (List.mem_reverse.1 hc), List.reverse_reverse]

/-! ### Designators -/

namespace Designator

variable {d : Designator}

/-- The segments of a printed designator are its parts, printed. -/
theorem splitOn_text (h : d.Bounded) (hd : d.parts ≠ []) :
    d.text.toList.splitOn '/' = d.parts.map (·.text.toList) := by
  rw [text, if_neg (by simpa using hd), String.toList_intercalate, List.map_map]
  refine List.splitOn_intercalate '/' (fun t ht => ?_) (by simpa using hd)
  obtain ⟨p, hp, rfl⟩ := List.mem_map.1 ht
  exact fun hmem => ((Part.writes_text (h p hp)).isPrinting _ hmem).ne_slash rfl

/-- In each segment of a printed designator, a part is written. -/
theorem writes_segments (h : d.Bounded) :
    ∃ ps, List.Forall₂ (fun t p => Part.Writes (Text.trim t) p) (d.text.toList.splitOn '/') ps ∧
      d.parts = ps.filter (· ≠ .identity) := by
  by_cases hd : d.parts = []
  · refine ⟨[.identity], ?_, by rw [hd]; rfl⟩
    rw [text, hd]
    exact .cons .identity .nil
  · refine ⟨d.parts, ?_, congrArg parts (compose_parts d).symm⟩
    rw [splitOn_text h hd, List.forall₂_map_left_iff, List.forall₂_same]
    intro p hp
    have hwrites := Part.writes_text (h p hp)
    rwa [Text.trim_eq_self fun c hc => Part.isBlank_of_isPrinting (hwrites.isPrinting c hc)]

/-- A designator is read back from its printed form, and so no other is printed alike. -/
theorem read_text (h : d.Bounded) :
    read d.text = .ok d ∧ ∀ d' : Designator, d'.Bounded → d'.text = d.text → d' = d := by
  have hread {d : Designator} (h : d.Bounded) : read d.text = .ok d :=
    read_eq_ok_iff.2 (writes_segments h)
  refine ⟨hread h, fun d' h' htext => ?_⟩
  have heq := hread h'
  rw [htext, hread h] at heq
  exact (Except.ok.inj heq).symm

/-- Numbers at either end of what words hold, and ranges of negative positions. -/
def extreme : Designator where
  parts := [.output 0, .element 18446744073709551615,
    .range ⟨-9223372036854775808, 9223372036854775807, by decide⟩, .range ⟨-5, -3, by decide⟩,
    .range ⟨-7, -7, by decide⟩]
  identity_not_mem := by decide

/-- A minus sign is told from the hyphen between the ends of a range. -/
theorem read_extreme : extreme.Bounded ∧
    extreme.text =
      "out0/#18446744073709551615/I-9223372036854775808-9223372036854775807/I-5--3/I-7" ∧
    read extreme.text = .ok extreme ∧
    ∀ d' : Designator, d'.Bounded → d'.text = extreme.text → d' = extreme := by
  have h : extreme.Bounded := by decide
  exact ⟨h, by decide +kernel, read_text h⟩

end Designator

end Lineage
