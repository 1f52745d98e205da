import Lineage.Proofs.Designator.Chain
import Lineage.Proofs.Outcomes

/-!
# Written designators

The grammar of designators, and what is read of a text. A part is written as its
number or numbers after the letters for its kind (`Part.Writes`), in plain digits and
within a word; a range whose ends are the wrong way round is written in the same
manner, but for no part (`Part.WritesReversed`).

Reading first takes a text for one of six shapes, of which every text has one at
most (`Part.shape?_eq_some_iff`), and then evaluates the numbers in it. So a part is
read where, but for white space around it, one is written (`Part.ofChars_eq_ok_iff`),
and the two ways to fail are told apart by what is written
(`Part.fault_or_reversed_of_ofChars`, `Part.ofChars_of_writesReversed`).
-/

namespace Lineage

variable {s t rest : List Char}

/-! ### Digits -/

/-- What holds of the ten plain digits. -/
theorem Text.of_isDigit {P : Char → Prop} (h : ∀ n < 58, 48 ≤ n → P (Char.ofNat n)) {c : Char}
    (hc : c.isDigit = true) : P c := by
  have hn : 48 ≤ c.toNat ∧ c.toNat ≤ 57 := by
    simpa [Char.isDigit, UInt32.le_iff_toNat_le] using hc
  have hP := h c.toNat (by omega) hn.1
  rwa [Char.ofNat_toNat] at hP

/-- Plain digits are digits. -/
theorem Text.isDecimalDigit_of_isDigit {c : Char} (h : c.isDigit = true) :
    isDecimalDigit c = true :=
  of_isDigit (P := fun c => isDecimalDigit c = true) (by decide +kernel) h

theorem Text.isDecimalDigit_minus : isDecimalDigit '-' = false := by decide +kernel

namespace Part

/-- Plain digits, at least one, for the number `n`; zeros may lead. -/
structure WritesDigits (s : List Char) (n : Nat) : Prop where
  ne_nil : s ≠ []
  isDigit : ∀ c ∈ s, c.isDigit = true
  value : Decimal.ofDigits s = n

/-- Digits for a word without a sign. -/
def WritesIndex (s : List Char) (n : Nat) : Prop := WritesDigits s n ∧ Word.Unsigned n

/-- Digits, maybe after a minus sign, for a word with a sign. -/
inductive WritesPosition : List Char → Int → Prop where
  | plain {s : List Char} {n : Nat} (h : WritesDigits s n) (hn : Word.Signed n) :
    WritesPosition s n
  | minus {s : List Char} {n : Nat} (h : WritesDigits s n) (hn : Word.Signed (-n)) :
    WritesPosition ('-' :: s) (-n)

/-- The text, without white space around it, is written for the part. -/
inductive Writes : List Char → Part → Prop where
  | identity : Writes ['*'] identity
  | single {s : List Char} {p : Int} (h : WritesPosition s p) :
    Writes ('I' :: s) (range (Range.single p))
  | range {s t : List Char} {r : Range} (hs : WritesPosition s r.start)
    (ht : WritesPosition t r.stop) : Writes ('I' :: (s ++ '-' :: t)) (range r)
  | element {s : List Char} {n : Nat} (h : WritesIndex s n) : Writes ('#' :: s) (element n)
  | input {s : List Char} {n : Nat} (h : WritesIndex s n) : Writes ('i' :: 'n' :: s) (input n)
  | output {s : List Char} {n : Nat} (h : WritesIndex s n) :
    Writes ('o' :: 'u' :: 't' :: s) (output n)

/-- The text is written like a range, but the end `stop` comes before `start`. -/
def WritesReversed (s : List Char) (start stop : Int) : Prop :=
  ∃ t u, s = 'I' :: (t ++ '-' :: u) ∧ WritesPosition t start ∧ WritesPosition u stop ∧ stop < start

/-! ### Numbers -/

namespace Numeral

variable {n : Numeral} {negative : Bool}

/-- There are digits, and nothing else. -/
structure IsFormed (n : Numeral) : Prop where
  ne_nil : n.digits ≠ []
  isDecimalDigit : ∀ c ∈ n.digits, Text.isDecimalDigit c = true

/-- No digit comes next. -/
def EndsBefore (s : List Char) : Prop := ∀ c ∈ s.head?, Text.isDecimalDigit c = false

theorem endsBefore_nil : EndsBefore [] := nofun

theorem endsBefore_minus : EndsBefore ('-' :: s) := by
  intro c hc
  obtain rfl := Option.some.inj hc
  exact Text.isDecimalDigit_minus

theorem unsigned?_append (h : n.IsFormed) (hs : EndsBefore s) :
    unsigned? negative (n.digits ++ s) = some (⟨negative, n.digits⟩, s) := by
  have hrest : s.takeWhile Text.isDecimalDigit = [] ∧ s.dropWhile Text.isDecimalDigit = s := by
    cases s with
    | nil => exact ⟨rfl, rfl⟩
    | cons c s =>
      have hc : ¬Text.isDecimalDigit c = true := by simp [hs c rfl]
      exact ⟨List.takeWhile_cons_of_neg hc, List.dropWhile_cons_of_neg hc⟩
  rw [unsigned?, List.takeWhile_append_of_pos h.isDecimalDigit,
    List.dropWhile_append_of_pos h.isDecimalDigit, hrest.1, hrest.2, List.append_nil]
  exact if_neg (by simpa using h.ne_nil)

theorem of_unsigned? (h : unsigned? negative s = some (n, rest)) :
    n.IsFormed ∧ n.negative = negative ∧ s = n.digits ++ rest := by
  rw [unsigned?] at h
  split at h
  · exact absurd h nofun
  · next hne =>
    obtain ⟨rfl, rfl⟩ := Prod.mk.inj (Option.some.inj h)
    refine ⟨⟨by simpa using hne, fun c hc => ?_⟩, rfl, List.takeWhile_append_dropWhile.symm⟩
    exact List.all_eq_true.1 List.all_takeWhile c hc

/-- A number is read as it is written, if no digit follows it. -/
theorem signed?_append (h : n.IsFormed) (hs : EndsBefore s) :
    signed? (n.chars ++ s) = some (n, s) := by
  obtain ⟨negative, digits⟩ := n
  cases negative with
  | true => exact unsigned?_append h hs
  | false =>
    rw [chars, if_neg Bool.false_ne_true, signed?]
    · exact unsigned?_append h hs
    · intro t ht
      -- The first digit is no sign.
      obtain ⟨c, cs, rfl⟩ := List.exists_cons_of_ne_nil h.ne_nil
      obtain ⟨rfl, -⟩ := List.cons.inj ht
      have hc := h.isDecimalDigit '-' List.mem_cons_self
      exact absurd hc (by simp [Text.isDecimalDigit_minus])

theorem of_signed? (h : signed? s = some (n, rest)) : n.IsFormed ∧ s = n.chars ++ rest := by
  rw [signed?.eq_def] at h
  split at h <;>
  · obtain ⟨hn, hnegative, rfl⟩ := of_unsigned? h
    simp [chars, hnegative, hn]

/-- Plain digits are the digits of a number. -/
theorem isFormed {k : Nat} (h : WritesDigits s k) : (Numeral.mk negative s).IsFormed :=
  ⟨h.ne_nil, fun c hc => Text.isDecimalDigit_of_isDigit (h.isDigit c hc)⟩

/-- The digits of a number with a value are plain. -/
theorem value?_eq_some_iff {i : Int} (h : n.IsFormed) : n.value? = some i ↔
    ∃ k, WritesDigits n.digits k ∧ i = if n.negative then -(k : Int) else k := by
  rw [value?]
  by_cases hall : n.digits.all Char.isDigit = true
  · rw [if_pos hall, Option.some_inj]
    refine ⟨fun hi => ⟨_, ⟨h.ne_nil, List.all_eq_true.1 hall, rfl⟩, hi.symm⟩, ?_⟩
    rintro ⟨k, hk, rfl⟩
    rw [hk.value]
  · rw [if_neg hall]
    refine ⟨nofun, ?_⟩
    rintro ⟨k, hk, -⟩
    exact absurd (List.all_eq_true.2 hk.isDigit) hall

theorem position_eq_ok_iff {p : Int} :
    n.position = .ok p ↔ n.value?.bind Word.signed? = some p := by
  rw [position]
  split
  · next i hi => rw [hi, Except.ok.injEq, Option.some_inj]
  · next hi => simp [hi]

theorem index_eq_ok_iff {k : Nat} :
    n.index = .ok k ↔ (n.value?.bind fun i => Word.unsigned? i.toNat) = some k := by
  rw [index]
  split
  · next i hi => rw [hi, Except.ok.injEq, Option.some_inj]
  · next hi => simp [hi]

theorem writesPosition {p : Int} (h : n.IsFormed) (hp : n.position = .ok p) :
    WritesPosition n.chars p := by
  obtain ⟨i, hi, hp⟩ := Option.bind_eq_some_iff.1 (position_eq_ok_iff.1 hp)
  obtain ⟨hword, rfl⟩ := Word.signed?_eq_some_iff.1 hp
  obtain ⟨k, hk, rfl⟩ := (value?_eq_some_iff h).1 hi
  rw [chars]
  split at hword
  · next hn => simpa [hn] using WritesPosition.minus hk hword
  · next hn => simpa [hn] using WritesPosition.plain hk hword

theorem writesIndex {k : Nat} (h : n.IsFormed) (hn : n.negative = false) (hk : n.index = .ok k) :
    WritesIndex n.chars k := by
  obtain ⟨i, hi, hk⟩ := Option.bind_eq_some_iff.1 (index_eq_ok_iff.1 hk)
  obtain ⟨hword, rfl⟩ := Word.unsigned?_eq_some_iff.1 hk
  obtain ⟨k, hdigits, rfl⟩ := (value?_eq_some_iff h).1 hi
  simp only [hn, Bool.false_eq_true, if_false, Int.toNat_natCast] at hword ⊢
  rw [chars, hn, if_neg Bool.false_ne_true]
  exact ⟨hdigits, hword⟩

theorem exists_of_writesPosition {p : Int} (h : WritesPosition s p) :
    ∃ n : Numeral, n.IsFormed ∧ n.chars = s ∧ n.position = .ok p := by
  cases h with
  | @plain s k h hk =>
    refine ⟨⟨false, s⟩, isFormed h, rfl, position_eq_ok_iff.2 ?_⟩
    rw [(value?_eq_some_iff (isFormed h)).2 ⟨k, h, rfl⟩, Option.bind_some]
    exact Word.signed?_eq_some_iff.2 ⟨hk, rfl⟩
  | @minus s k h hk =>
    refine ⟨⟨true, s⟩, isFormed h, rfl, position_eq_ok_iff.2 ?_⟩
    rw [(value?_eq_some_iff (isFormed h)).2 ⟨k, h, rfl⟩, Option.bind_some]
    exact Word.signed?_eq_some_iff.2 ⟨hk, rfl⟩

theorem exists_of_writesIndex {k : Nat} (h : WritesIndex s k) :
    ∃ n : Numeral, (n.IsFormed ∧ n.negative = false) ∧ n.chars = s ∧ n.index = .ok k := by
  refine ⟨⟨false, s⟩, ⟨isFormed h.1, rfl⟩, rfl, index_eq_ok_iff.2 ?_⟩
  rw [(value?_eq_some_iff (isFormed h.1)).2 ⟨k, h.1, rfl⟩, Option.bind_some]
  exact Word.unsigned?_eq_some_iff.2 ⟨h.2, rfl⟩

/-- A number that is not evaluated makes an error of reading. -/
theorem exists_fault_of_position {e : Error} (h : n.position = .error e) :
    ∃ fault, e = .read fault := by
  rw [position] at h
  split at h
  · exact absurd h nofun
  · exact ⟨_, (Except.error.inj h).symm⟩

theorem exists_fault_of_index {e : Error} (h : n.index = .error e) : ∃ fault, e = .read fault := by
  rw [index] at h
  split at h
  · exact absurd h nofun
  · exact ⟨_, (Except.error.inj h).symm⟩

end Numeral

/-! ### Shapes -/

namespace Shape

/-- The text of a part that looks like this. -/
def chars : Shape → List Char
  | identity => ['*']
  | range start none => 'I' :: start.chars
  | range start (some stop) => 'I' :: (start.chars ++ '-' :: stop.chars)
  | element n => '#' :: n.chars
  | input n => 'i' :: 'n' :: n.chars
  | output n => 'o' :: 'u' :: 't' :: n.chars

/-- The numbers are formed, and those of indices have no sign. -/
def IsFormed : Shape → Prop
  | identity => True
  | range start none => start.IsFormed
  | range start (some stop) => start.IsFormed ∧ stop.IsFormed
  | element n | input n | output n => n.IsFormed ∧ n.negative = false

end Shape

variable {sh : Shape} {p : Part} {e : Error}

theorem wholeIndex_eq_some_iff {n : Numeral} :
    wholeIndex s = some n ↔ (n.IsFormed ∧ n.negative = false) ∧ s = n.chars := by
  rw [wholeIndex]
  constructor
  · intro h
    split at h
    · next n' hn =>
      obtain rfl := Option.some.inj h
      obtain ⟨hformed, hnegative, rfl⟩ := Numeral.of_unsigned? hn
      simp [hformed, hnegative, Numeral.chars]
    · exact absurd h nofun
  · rintro ⟨⟨hformed, hnegative⟩, rfl⟩
    obtain ⟨negative, digits⟩ := n
    obtain rfl : negative = false := hnegative
    have hread : Numeral.unsigned? false (digits ++ []) = some (⟨false, digits⟩, []) :=
      Numeral.unsigned?_append hformed Numeral.endsBefore_nil
    rw [List.append_nil] at hread
    rw [Numeral.chars, if_neg Bool.false_ne_true, hread]

theorem Numeral.signed?_chars {n : Numeral} (h : n.IsFormed) : signed? n.chars = some (n, []) := by
  simpa using signed?_append h endsBefore_nil

/-- A text is taken for the shape that has it for its text, and for no other. -/
theorem shape?_eq_some_iff : shape? s = some sh ↔ sh.IsFormed ∧ s = sh.chars := by
  constructor
  · intro h
    rw [shape?.eq_def] at h
    split at h
    · obtain rfl := Option.some.inj h
      exact ⟨trivial, rfl⟩
    · split at h
      · next start hstart =>
        obtain rfl := Option.some.inj h
        obtain ⟨hn, rfl⟩ := Numeral.of_signed? hstart
        exact ⟨hn, by rw [Shape.chars, List.append_nil]⟩
      · next start u hstart =>
        obtain ⟨hn, rfl⟩ := Numeral.of_signed? hstart
        split at h
        · next stop hstop =>
          obtain rfl := Option.some.inj h
          obtain ⟨hm, rfl⟩ := Numeral.of_signed? hstop
          exact ⟨⟨hn, hm⟩, by rw [Shape.chars, List.append_nil]⟩
        · exact absurd h nofun
      · exact absurd h nofun
    iterate 3
      · obtain ⟨n, hn, rfl⟩ := Option.map_eq_some_iff.1 h
        obtain ⟨hformed, rfl⟩ := wholeIndex_eq_some_iff.1 hn
        exact ⟨hformed, rfl⟩
    · exact absurd h nofun
  · rintro ⟨hformed, rfl⟩
    cases sh with
    | identity => rfl
    | range start stop? =>
      cases stop? with
      | none => rw [Shape.chars, shape?, Numeral.signed?_chars hformed]
      | some stop =>
        rw [Shape.chars, shape?, Numeral.signed?_append hformed.1 Numeral.endsBefore_minus]
        simp only [Numeral.signed?_chars hformed.2]
    | element n | input n | output n =>
      rw [Shape.chars, shape?, wholeIndex_eq_some_iff.2 ⟨hformed, rfl⟩, Option.map_some]

/-! ### Parts -/

/-- What is made of a shape is what its text is written for. -/
theorem writes_of_ofShape (hformed : sh.IsFormed) (h : ofShape sh = .ok p) : Writes sh.chars p := by
  cases sh with
  | identity =>
    obtain rfl := Except.ok.inj h
    exact .identity
  | range start stop? =>
    cases stop? with
    | none =>
      obtain ⟨i, hi, h⟩ := exists_of_bind_ok h
      obtain rfl := Except.ok.inj h
      exact .single (Numeral.writesPosition hformed hi)
    | some stop =>
      obtain ⟨i, hi, h⟩ := exists_of_bind_ok h
      obtain ⟨j, hj, h⟩ := exists_of_bind_ok h
      obtain ⟨r, hr, h⟩ := exists_of_bind_ok h
      obtain rfl := Except.ok.inj h
      rw [Range.ofEnds] at hr
      split at hr
      · obtain rfl := Except.ok.inj hr
        exact .range (Numeral.writesPosition hformed.1 hi) (Numeral.writesPosition hformed.2 hj)
      · exact absurd hr nofun
  | element n | input n | output n =>
    obtain ⟨k, hk, h⟩ := exists_of_bind_ok h
    obtain rfl := Except.ok.inj h
    constructor
    exact Numeral.writesIndex hformed.1 hformed.2 hk

/-- What is written is made of a shape. -/
theorem exists_shape_of_writes (h : Writes s p) :
    ∃ sh, shape? s = some sh ∧ ofShape sh = .ok p := by
  cases h with
  | identity => exact ⟨.identity, rfl, rfl⟩
  | single h =>
    obtain ⟨n, hn, rfl, hp⟩ := Numeral.exists_of_writesPosition h
    refine ⟨.range n none, shape?_eq_some_iff.2 ⟨hn, rfl⟩, ?_⟩
    rw [ofShape, hp]
    rfl
  | @range s t r hs ht =>
    obtain ⟨n, hn, rfl, hp⟩ := Numeral.exists_of_writesPosition hs
    obtain ⟨m, hm, rfl, hq⟩ := Numeral.exists_of_writesPosition ht
    refine ⟨.range n (some m), shape?_eq_some_iff.2 ⟨⟨hn, hm⟩, rfl⟩, ?_⟩
    rw [ofShape, hp, hq]
    simp only [bind, Except.bind, Range.ofEnds, dif_pos r.start_le_stop]
    rfl
  | element h =>
    obtain ⟨n, hn, rfl, hk⟩ := Numeral.exists_of_writesIndex h
    exact ⟨.element n, shape?_eq_some_iff.2 ⟨hn, rfl⟩, congrArg (· >>= (pure <| element ·)) hk⟩
  | input h =>
    obtain ⟨n, hn, rfl, hk⟩ := Numeral.exists_of_writesIndex h
    exact ⟨.input n, shape?_eq_some_iff.2 ⟨hn, rfl⟩, congrArg (· >>= (pure <| input ·)) hk⟩
  | output h =>
    obtain ⟨n, hn, rfl, hk⟩ := Numeral.exists_of_writesIndex h
    exact ⟨.output n, shape?_eq_some_iff.2 ⟨hn, rfl⟩, congrArg (· >>= (pure <| output ·)) hk⟩

/-- A part is read where one is written, maybe with white space around it. -/
theorem ofChars_eq_ok_iff : ofChars s = .ok p ↔ Writes (Text.trim s) p := by
  rw [ofChars]
  constructor
  · intro h
    split at h
    · next sh hsh =>
      obtain ⟨hformed, hchars⟩ := shape?_eq_some_iff.1 hsh
      exact hchars ▸ writes_of_ofShape hformed h
    · exact absurd h nofun
  · intro h
    obtain ⟨sh, hsh, hp⟩ := exists_shape_of_writes h
    rw [hsh]
    exact hp

/-- What is not read fails to be a number, or is a range whose ends are the wrong way round. -/
theorem fault_or_reversed_of_ofShape (hformed : sh.IsFormed) (h : ofShape sh = .error e) :
    (∃ fault, e = .read fault) ∨ ∃ i j, e = .malformedRange i j ∧ WritesReversed sh.chars i j := by
  cases sh with
  | identity => exact absurd h nofun
  | range start stop? =>
    cases stop? with
    | none =>
      rcases error_or_error_of_bind h with hi | ⟨i, -, h⟩
      · exact .inl (Numeral.exists_fault_of_position hi)
      · exact absurd h nofun
    | some stop =>
      rcases error_or_error_of_bind h with hi | ⟨i, hi, h⟩
      · exact .inl (Numeral.exists_fault_of_position hi)
      rcases error_or_error_of_bind h with hj | ⟨j, hj, h⟩
      · exact .inl (Numeral.exists_fault_of_position hj)
      rcases error_or_error_of_bind h with hr | ⟨r, -, h⟩
      · rw [Range.ofEnds] at hr
        split at hr
        · exact absurd hr nofun
        · next hlt =>
          exact .inr ⟨i, j, (Except.error.inj hr).symm, start.chars, stop.chars, rfl,
            Numeral.writesPosition hformed.1 hi, Numeral.writesPosition hformed.2 hj,
            Int.not_le.1 hlt⟩
      · exact absurd h nofun
  | element n | input n | output n =>
    rcases error_or_error_of_bind h with hk | ⟨k, -, h⟩
    · exact .inl (Numeral.exists_fault_of_index hk)
    · exact absurd h nofun

theorem fault_or_reversed_of_ofChars (h : ofChars s = .error e) :
    (∃ fault, e = .read fault) ∨
      ∃ i j, e = .malformedRange i j ∧ WritesReversed (Text.trim s) i j := by
  rw [ofChars] at h
  split at h
  · next sh hsh =>
    obtain ⟨hformed, hchars⟩ := shape?_eq_some_iff.1 hsh
    exact hchars ▸ fault_or_reversed_of_ofShape hformed h
  · exact .inl ⟨_, (Except.error.inj h).symm⟩

/-- A range whose ends are the wrong way round is told from all else that is not read. -/
theorem ofChars_of_writesReversed {i j : Int} (h : WritesReversed (Text.trim s) i j) :
    ofChars s = .error (.malformedRange i j) := by
  obtain ⟨t, u, hs, ht, hu, hlt⟩ := h
  obtain ⟨n, hn, rfl, hi⟩ := Numeral.exists_of_writesPosition ht
  obtain ⟨m, hm, rfl, hj⟩ := Numeral.exists_of_writesPosition hu
  have hsh : shape? (Text.trim s) = some (.range n (some m)) :=
    shape?_eq_some_iff.2 ⟨⟨hn, hm⟩, hs⟩
  rw [ofChars, hsh]
  simp only [ofShape, hi, hj, bind, Except.bind, Range.ofEnds, dif_neg (Int.not_le.2 hlt)]

end Part

/-! ### Designators -/

namespace Designator

/-- The segments are what a text is split into at slashes. -/
theorem segments_eq_splitOn (s : List Char) : segments s = s.splitOn '/' := by
  induction s with
  | nil => rfl
  | cons c s ih =>
    rw [segments, ih, List.splitOn_eq_splitOnP, List.splitOn_eq_splitOnP,
      List.splitOnP_cons_eq_if_modifyHead]
    by_cases hc : c = '/'
    · simp [hc]
    · rw [if_neg hc, if_neg (by simpa using hc)]
      obtain ⟨t, ts, hts⟩ := List.exists_cons_of_ne_nil (List.splitOnP_ne_nil (· == '/') s)
      rw [hts]
      rfl

/-- The parts that are written between slashes make up the designator. -/
theorem read_eq_ok_iff {s : String} {d : Designator} : read s = .ok d ↔
    ∃ ps, List.Forall₂ (fun t p => Part.Writes (Text.trim t) p) (s.toList.splitOn '/') ps ∧
      d.parts = ps.filter (· ≠ .identity) := by
  rw [read, segments_eq_splitOn]
  simp only [← Part.ofChars_eq_ok_iff, ← mapM_eq_ok_iff]
  constructor
  · intro h
    obtain ⟨ps, hps, h⟩ := exists_of_bind_ok h
    exact ⟨ps, hps, (Except.ok.inj h) ▸ parts_compose ps⟩
  · rintro ⟨ps, hps, hd⟩
    rw [hps]
    exact congrArg _ (eq_of_parts (hd.trans (parts_compose ps).symm)).symm

/-- A text is read if and only if a part is written in each segment between slashes, white space
    aside, and what is read is the chain of these parts without identities. If it is not, the error
    is that of the first segment in which no part is written: an error of the range if the segment
    is written like one whose ends are the wrong way round, and else an error of reading. -/
theorem read_iff_writes (s : String) :
    (∀ d, read s = .ok d ↔
      ∃ ps, List.Forall₂ (fun t p => Part.Writes (Text.trim t) p) (s.toList.splitOn '/') ps ∧
        d.parts = ps.filter (· ≠ .identity)) ∧
    ((∃ d, read s = .ok d) ↔ ∀ t ∈ s.toList.splitOn '/', ∃ p, Part.Writes (Text.trim t) p) ∧
    ∀ e, read s = .error e → ∃ before t after, s.toList.splitOn '/' = before ++ t :: after ∧
      (∀ u ∈ before, ∃ p, Part.Writes (Text.trim u) p) ∧ (¬∃ p, Part.Writes (Text.trim t) p) ∧
      (∀ i j, e = .malformedRange i j ↔ Part.WritesReversed (Text.trim t) i j) ∧
      ((∃ fault, e = .read fault) ↔ ∀ i j, ¬Part.WritesReversed (Text.trim t) i j) := by
  refine ⟨fun d => read_eq_ok_iff, ?_, fun e h => ?_⟩
  · rw [← exists_forall₂_iff]
    constructor
    · rintro ⟨d, hd⟩
      obtain ⟨ps, hps, -⟩ := read_eq_ok_iff.1 hd
      exact ⟨ps, hps⟩
    · rintro ⟨ps, hps⟩
      exact ⟨compose ps, read_eq_ok_iff.2 ⟨ps, hps, parts_compose ps⟩⟩
  · rw [read, segments_eq_splitOn] at h
    rcases error_or_error_of_bind h with h | ⟨ps, -, h⟩
    · obtain ⟨before, t, after, hsplit, hbefore, ht⟩ := exists_of_mapM_error h
      simp only [Part.ofChars_eq_ok_iff] at hbefore
      refine ⟨before, t, after, hsplit, hbefore, ?_, ?_⟩
      · rintro ⟨p, hp⟩
        exact absurd (ht.symm.trans (Part.ofChars_eq_ok_iff.2 hp)) nofun
      · have hrev {i j : Int} (h : Part.WritesReversed (Text.trim t) i j) :
            e = .malformedRange i j :=
          Except.error.inj (ht.symm.trans (Part.ofChars_of_writesReversed h))
        rcases Part.fault_or_reversed_of_ofChars ht with ⟨fault, rfl⟩ | ⟨i, j, rfl, hij⟩
        · have hnot (i j : Int) : ¬Part.WritesReversed (Text.trim t) i j := fun h =>
            absurd (hrev h) nofun
          exact ⟨fun i j => iff_of_false nofun (hnot i j), iff_of_true ⟨fault, rfl⟩ hnot⟩
        · refine ⟨fun i' j' => ⟨fun heq => ?_, hrev⟩, iff_of_false nofun fun hnot => hnot i j hij⟩
          obtain ⟨rfl, rfl⟩ := Error.malformedRange.inj heq
          exact hij
    · exact absurd h nofun

example : read " I-5--3 /*/#007" =
    .ok ⟨[.range ⟨-5, -3, by decide⟩, .element 7], by decide⟩ := by
  decide +kernel

/-- Digits of other scripts have no value. -/
example : read "in0/#\u0663/I3-2" = .error (.read (.invalidIndex "\u0663")) := by
  decide +kernel

end Designator

end Lineage
