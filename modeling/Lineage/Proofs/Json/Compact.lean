import Lineage.Json.Printer
import Lineage.Json.Reader

/-!
# Reading what is printed

A document without fractions and exponents, of which all strings are text (`Plain`),
is read back from its compact text as it is (`Plain.read_compact`). Each reader
takes what the printer wrote and leaves what follows; only a number would take more,
if digits, a point or an exponent followed (`Follows`).
-/

namespace Lineage.Json

variable {c e : Char} {cs r rest : List Char} {n : Nat} {i : Int} {j : Json} {js : List Json}
  {key : Option String} {ms : List (Option String × Json)}

/-! ### Strings -/

/-- Control characters are escaped by their code points, which are below 32. -/
theorem unitSymbol_digitChar : ∀ n < 32,
    unitSymbol '0' '0' (Nat.digitChar (n / 16)) (Nat.digitChar (n % 16)) =
      some (.char (Char.ofNat n)) := by
  decide

/-- A letter after a backslash is read as what it stands for. -/
theorem symbols_escaped (h : escaped e = some c) :
    symbols ('\\' :: e :: r) = (symbols r).map fun (xs, r) => (.char c :: xs, r) := by
  rw [symbols, h]
  · cases symbols r <;> rfl
  · rintro _ _ _ _ _ rfl
    exact absurd h nofun

/-- Other characters stand for themselves. -/
theorem symbols_plain (hquote : c ≠ '"') (hback : c ≠ '\\') (hc : ¬c.toNat < 0x20) :
    symbols (c :: r) = (symbols r).map fun (xs, r) => (.char c :: xs, r) := by
  rw [symbols, if_neg (by simp [hback, hc])]
  · cases symbols r <;> rfl
  · exact hquote
  · exact fun _ _ _ _ _ h => absurd h hback
  · exact fun _ _ h => absurd h hback

/-- An escaped character is read as that character. -/
theorem symbols_escape (c : Char) (r : List Char) : symbols (escape c ++ r) =
    (symbols r).map fun (xs, r) => (.char c :: xs, r) := by
  rw [escape]
  -- Seven characters have a letter of their own.
  iterate 7
    split
    · next h =>
      subst h
      exact symbols_escaped rfl
  split
  · next h =>
    have hunit := unitSymbol_digitChar c.toNat h
    rw [Char.ofNat_toNat] at hunit
    simp only [List.cons_append, List.nil_append]
    rw [symbols, hunit]
    cases symbols r <;> rfl
  · next hquote hback _ _ _ _ _ h => exact symbols_plain hquote hback h

theorem symbols_quoted (cs rest : List Char) :
    symbols (cs.flatMap escape ++ '"' :: rest) = some (cs.map .char, rest) := by
  induction cs with
  | nil => rfl
  | cons c cs ih =>
    rw [List.flatMap_cons, List.append_assoc, symbols_escape, ih]
    rfl

theorem join_chars (cs : List Char) : join (cs.map .char) = some cs := by
  induction cs with
  | nil => rfl
  | cons c cs ih =>
    rw [List.map_cons, join, ih]
    rfl

/-- A printed string is read as that string. -/
theorem text_quoted (s : String) (rest : List Char) :
    text (s.toList.flatMap escape ++ '"' :: rest) = some (some s, rest) := by
  simp only [text, symbols_quoted, join_chars, Option.map_some, String.ofList_toList]

/-! ### Numbers -/

/-- Neither a digit nor a point nor an exponent follows. -/
def Follows (rest : List Char) : Prop :=
  ∀ c ∈ rest.head?, c.isDigit = false ∧ c ≠ '.' ∧ c ≠ 'e' ∧ c ≠ 'E'

/-- The integer is a word, and so the reader takes it for an integer. -/
def IsWord : Int → Prop
  | .ofNat n => Word.Unsigned n
  | .negSucc n => Word.Signed (.negSucc n)

theorem digits_toDigits (h : Follows rest) (n : Nat) :
    digits (Nat.toDigits 10 n ++ rest) = some (Nat.toDigits 10 n, rest) := by
  have hall (c : Char) (hc : c ∈ Nat.toDigits 10 n) : c.isDigit :=
    Nat.isDigit_of_mem_toDigits (by decide) (Nat.le_refl 10) hc
  have htake : rest.takeWhile Char.isDigit = [] ∧ rest.dropWhile Char.isDigit = rest := by
    cases rest with
    | nil => exact ⟨rfl, rfl⟩
    | cons c rest =>
      have hc : ¬c.isDigit := by simp [(h c rfl).1]
      exact ⟨List.takeWhile_cons_of_neg hc, List.dropWhile_cons_of_neg hc⟩
  rw [digits, List.takeWhile_append_of_pos hall, List.dropWhile_append_of_pos hall, htake.1,
    htake.2, List.append_nil]
  exact if_neg (by simp [Nat.toDigits_ne_nil])

/-- Only zero begins with a zero. -/
theorem toDigits_append_ne (h : n ≠ 0) (rest r : List Char) :
    Nat.toDigits 10 n ++ rest ≠ '0' :: r := by
  induction n using Nat.strongRecOn generalizing rest with
  | _ n ih =>
    by_cases hn : n < 10
    · have hdigit : ∀ n < 10, n ≠ 0 → Nat.digitChar n ≠ '0' := by decide
      rw [Nat.toDigits_of_lt_base hn]
      exact fun he => hdigit n hn h (List.cons.inj he).1
    · -- The digits begin with those of `n / 10`, which is not zero either.
      rw [Nat.toDigits_of_base_le (by decide) (Nat.not_lt.1 hn), List.append_assoc]
      exact ih (n / 10) (by omega) (by omega) _

theorem integral_toDigits (h : Follows rest) (n : Nat) :
    integral (Nat.toDigits 10 n ++ rest) = some (Nat.toDigits 10 n, rest) := by
  by_cases hn : n = 0
  · subst hn
    rfl
  · rw [integral, digits_toDigits h]
    exact toDigits_append_ne hn rest

theorem fraction_of_follows (h : Follows rest) : fraction rest = some (none, rest) := by
  rw [fraction]
  rintro r rfl
  exact (h '.' rfl).2.1 rfl

theorem exponent_of_follows (h : Follows rest) : exponent rest = some (none, rest) := by
  rw [exponent]
  · rintro r rfl
    exact (h 'e' rfl).2.2.1 rfl
  · rintro r rfl
    exact (h 'E' rfl).2.2.2 rfl

/-- The digits begin with a digit, and not with a sign. -/
theorem exists_cons_toDigits (n : Nat) :
    ∃ c cs, Nat.toDigits 10 n = c :: cs ∧ c.isDigit = true := by
  obtain ⟨c, cs, hcs⟩ := List.exists_cons_of_ne_nil (Nat.toDigits_ne_nil (n := n) (b := 10))
  exact ⟨c, cs, hcs, Nat.isDigit_of_mem_toDigits (by decide) (Nat.le_refl 10)
    (hcs ▸ List.mem_cons_self)⟩

theorem word_toDigits (h : Word.Unsigned n) : word false (Nat.toDigits 10 n) = some (.ofNat n) := by
  have hunsigned : Word.unsigned? n = some n := Word.unsigned?_eq_some_iff.2 ⟨h, rfl⟩
  rw [word, Decimal.ofDigits_toDigits, hunsigned]
  rfl

theorem word_toDigits_succ (h : Word.Signed (.negSucc n)) :
    word true (Nat.toDigits 10 (n + 1)) = some (.negSucc n) := by
  have hsigned : Word.signed? (-((n + 1 : Nat) : Int)) = some (.negSucc n) :=
    Word.signed?_eq_some_iff.2 ⟨h, rfl⟩
  simp only [word, Decimal.ofDigits_toDigits, Bool.not_true, Bool.false_eq_true, if_false,
    Nat.succ_ne_zero, hsigned]

theorem unsignedNumber_toDigits {negative : Bool} (h : Follows rest)
    (hi : word negative (Nat.toDigits 10 n) = some i) :
    unsignedNumber negative (Nat.toDigits 10 n ++ rest) = some (.int i, rest) := by
  rw [unsignedNumber, integral_toDigits h]
  simp only [Option.bind_eq_bind, Option.bind_some, fraction_of_follows h,
    exponent_of_follows h, hi]

/-- An integer begins with a digit or a sign. -/
theorem exists_cons_digitsOfInt (i : Int) :
    ∃ c cs, digitsOfInt i = c :: cs ∧ (c.isDigit = true ∨ c = '-') := by
  cases i with
  | ofNat n =>
    obtain ⟨c, cs, hcs, hc⟩ := exists_cons_toDigits n
    exact ⟨c, cs, hcs, .inl hc⟩
  | negSucc n => exact ⟨'-', _, rfl, .inr rfl⟩

/-- An integer is read as that integer, and what follows is left. -/
theorem number_digitsOfInt (hi : IsWord i) (h : Follows rest) :
    number (digitsOfInt i ++ rest) = some (.int i, rest) := by
  cases i with
  | ofNat n =>
    rw [digitsOfInt, number]
    · exact unsignedNumber_toDigits h (word_toDigits hi)
    · obtain ⟨c, cs, hcs, hc⟩ := exists_cons_toDigits n
      rw [hcs]
      rintro r hr
      obtain rfl := (List.cons.inj hr).1
      exact absurd hc (by decide)
  | negSucc n => exact unsignedNumber_toDigits h (word_toDigits_succ hi)

/-! ### What documents begin with -/

theorem skip_cons (h : isSpace c = false) : skip (c :: r) = c :: r := by
  rw [skip, List.dropWhile_cons_of_neg (by simp [h])]

theorem isSpace_eq_false (hc : c.isDigit = true ∨ c = '-') : isSpace c = false := by
  simp only [isSpace, Bool.or_eq_false_iff, decide_eq_false_iff_not]
  refine ⟨⟨⟨?_, ?_⟩, ?_⟩, ?_⟩
  all_goals
    rintro rfl
    exact absurd hc (by decide)

/-- A digit or a sign begins nothing but a number. -/
theorem value_number {fuel : Nat} (hc : c.isDigit = true ∨ c = '-') :
    value (fuel + 1) (c :: r) = number (c :: r) := by
  rw [value, skip_cons (isSpace_eq_false hc)]
  split
  case h_7 => rfl
  all_goals
    next h =>
      obtain rfl := (List.cons.inj h).1
      exact absurd hc (by decide)

/-- A document without fractions and exponents, of which all strings are text. -/
inductive Plain : Json → Prop where
  | null : Plain null
  | bool (b : Bool) : Plain (bool b)
  | int {i : Int} (h : IsWord i) : Plain (int i)
  | str (s : String) : Plain (str s)
  | array {items : List Json} (h : ∀ j ∈ items, Plain j) : Plain (array items)
  | object {members : List (Option String × Json)} (hkeys : ∀ m ∈ members, m.1.isSome)
    (h : ∀ m ∈ members, Plain m.2) : Plain (object members)

/-- The document is read back in front of anything that may follow it, with as many calls as it has
    characters. -/
def Reads (j : Json) : Prop := ∀ fuel rest, (compactChars j).length ≤ fuel → Follows rest →
  value fuel (compactChars j ++ rest) = some (j, rest)

/-- A document begins neither with white space nor with the end of an array. -/
theorem Plain.exists_cons (h : Plain j) :
    ∃ c cs, compactChars j = c :: cs ∧ isSpace c = false ∧ c ≠ ']' := by
  cases h with
  | null => exact ⟨_, _, rfl, by decide⟩
  | bool b => cases b <;> exact ⟨_, _, rfl, by decide⟩
  | @int i h =>
    obtain ⟨c, cs, hcs, hc⟩ := exists_cons_digitsOfInt i
    refine ⟨c, cs, hcs, isSpace_eq_false hc, ?_⟩
    rintro rfl
    exact absurd hc (by decide)
  | str s => exact ⟨'"', _, rfl, by decide⟩
  | @array items h => cases items <;> exact ⟨'[', _, rfl, by decide⟩
  | @object members hkeys h => cases members <;> exact ⟨'{', _, rfl, by decide⟩

/-! ### What follows items and members -/

theorem follows_cons (h : c.isDigit = false ∧ c ≠ '.' ∧ c ≠ 'e' ∧ c ≠ 'E') :
    Follows (c :: r) := fun _ hc => Option.some.inj hc ▸ h

theorem follows_compactItems (js : List Json) (rest : List Char) :
    Follows (compactItems js ++ rest) := by
  cases js <;> exact follows_cons (by decide)

theorem follows_compactMembers (ms : List (Option String × Json)) (rest : List Char) :
    Follows (compactMembers ms ++ rest) := by
  cases ms <;> exact follows_cons (by decide)

/-! ### Items and members -/

section

variable {fuel : Nat} {t : List Char} {s : String}

theorem items_last (h : value fuel t = some (j, ']' :: r)) :
    items (fuel + 1) t = some ([j], r) := by
  rw [items, h]
  rfl

theorem items_next (h : value fuel t = some (j, ',' :: r)) (hjs : items fuel r = some (js, rest)) :
    items (fuel + 1) t = some (j :: js, rest) := by
  rw [items, h]
  simp only [Option.bind_eq_bind, Option.bind_some, skip_cons (c := ',') rfl, hjs]

theorem members_last (h : value fuel t = some (j, '}' :: r)) :
    members (fuel + 1) (quoted (some s) ++ ':' :: t) = some ([(some s, j)], r) := by
  rw [members, quoted, List.append_assoc, List.cons_append, skip_cons rfl]
  simp only [List.singleton_append, text_quoted, Option.bind_eq_bind, Option.bind_some,
    skip_cons (c := ':') rfl, h, skip_cons (c := '}') rfl]

theorem members_next (h : value fuel t = some (j, ',' :: r))
    (hms : members fuel r = some (ms, rest)) :
    members (fuel + 1) (quoted (some s) ++ ':' :: t) = some ((some s, j) :: ms, rest) := by
  rw [members, quoted, List.append_assoc, List.cons_append, skip_cons rfl]
  simp only [List.singleton_append, text_quoted, Option.bind_eq_bind, Option.bind_some,
    skip_cons (c := ':') rfl, h, skip_cons (c := ',') rfl, hms]

end

/-- Items are read back, if each of them is. -/
theorem items_compactItems (h : ∀ j' ∈ j :: js, Reads j') {fuel : Nat}
    (hfuel : (compactChars j).length + (compactItems js).length ≤ fuel) (rest : List Char) :
    items fuel (compactChars j ++ (compactItems js ++ rest)) = some (j :: js, rest) := by
  induction js generalizing j fuel with
  | nil =>
    rw [compactItems, List.length_singleton] at hfuel
    obtain ⟨fuel, rfl⟩ := Nat.exists_eq_add_one.2 (show 0 < fuel by omega)
    exact items_last (h j List.mem_cons_self fuel _ (by omega) (follows_compactItems [] rest))
  | cons j' js ih =>
    -- There is a comma for the call that reads the rest of the items.
    rw [compactItems, List.cons_append, List.length_cons, List.length_append] at hfuel
    obtain ⟨fuel, rfl⟩ := Nat.exists_eq_add_one.2 (show 0 < fuel by omega)
    have hj := h j List.mem_cons_self fuel _ (by omega) (follows_compactItems (j' :: js) rest)
    rw [compactItems, List.cons_append, List.cons_append, List.append_assoc] at hj ⊢
    exact items_next hj (ih (fun j hj => h j (List.mem_cons_of_mem _ hj)) (by omega))

/-- Members are read back, if each of them is. -/
theorem members_compactMembers (hkeys : ∀ m ∈ (key, j) :: ms, m.1.isSome)
    (h : ∀ m ∈ (key, j) :: ms, Reads m.2) {fuel : Nat}
    (hfuel : (compactChars j).length + (compactMembers ms).length ≤ fuel) (rest : List Char) :
    members fuel (quoted key ++ ':' :: (compactChars j ++ (compactMembers ms ++ rest))) =
      some ((key, j) :: ms, rest) := by
  induction ms generalizing key j fuel with
  | nil =>
    obtain ⟨s, rfl⟩ := Option.isSome_iff_exists.1 (hkeys _ List.mem_cons_self)
    rw [compactMembers, List.length_singleton] at hfuel
    obtain ⟨fuel, rfl⟩ := Nat.exists_eq_add_one.2 (show 0 < fuel by omega)
    exact members_last (h _ List.mem_cons_self fuel _ (Nat.le_of_succ_le_succ hfuel)
      (follows_compactMembers [] rest))
  | cons m ms ih =>
    obtain ⟨s, rfl⟩ := Option.isSome_iff_exists.1 (hkeys _ List.mem_cons_self)
    obtain ⟨key', j'⟩ := m
    rw [compactMembers] at hfuel
    simp only [List.cons_append, List.append_assoc, List.length_cons, List.length_append] at hfuel
    obtain ⟨fuel, rfl⟩ := Nat.exists_eq_add_one.2 (show 0 < fuel by omega)
    have hj := h _ List.mem_cons_self fuel _ (by dsimp only; omega)
      (follows_compactMembers ((key', j') :: ms) rest)
    rw [compactMembers] at hj ⊢
    simp only [List.cons_append, List.append_assoc] at hj ⊢
    exact members_next hj (ih (fun m hm => hkeys m (List.mem_cons_of_mem _ hm))
      (fun m hm => h m (List.mem_cons_of_mem _ hm)) (by omega))

/-! ### Documents -/

theorem value_array {fuel : Nat} (hspace : isSpace c = false) (hne : c ≠ ']')
    (h : items fuel (c :: r) = some (js, rest)) :
    value (fuel + 1) ('[' :: c :: r) = some (.array js, rest) := by
  rw [value, skip_cons rfl]
  simp only [skip_cons hspace]
  split
  · next heq => exact absurd (List.cons.inj heq).1 hne
  · rw [h]
    rfl

theorem value_object {fuel : Nat} (h : members fuel ('"' :: r) = some (ms, rest)) :
    value (fuel + 1) ('{' :: '"' :: r) = some (.object ms, rest) := by
  rw [value, skip_cons rfl]
  simp only [skip_cons (c := '"') rfl]
  split
  · next heq => exact absurd (List.cons.inj heq).1 (by decide)
  · rw [h]
    rfl

/-- There is a call for the document itself. -/
theorem Plain.reads_of_succ (h : Plain j) (hvalue : ∀ fuel rest,
    (compactChars j).length ≤ fuel + 1 → Follows rest →
      value (fuel + 1) (compactChars j ++ rest) = some (j, rest)) : Reads j := by
  intro fuel rest hfuel hrest
  obtain ⟨c, cs, hcs, -⟩ := h.exists_cons
  have hpos : 0 < (compactChars j).length := hcs ▸ Nat.succ_pos _
  obtain ⟨fuel, rfl⟩ := Nat.exists_eq_add_one.2 (Nat.lt_of_lt_of_le hpos hfuel)
  exact hvalue fuel rest hfuel hrest

/-- Plain documents are read back, wherever they stand. -/
theorem Plain.reads (h : Plain j) : Reads j := by
  induction h with
  | null => exact reads_of_succ .null fun _ _ _ _ => rfl
  | bool b => exact reads_of_succ (.bool b) fun _ _ _ _ => by cases b <;> rfl
  | @int i h =>
    refine reads_of_succ (.int h) fun fuel rest _ hrest => ?_
    obtain ⟨c, cs, hcs, hc⟩ := exists_cons_digitsOfInt i
    have hnumber := number_digitsOfInt h hrest
    rw [hcs] at hnumber
    rw [compactChars, hcs, List.cons_append, value_number hc]
    exact hnumber
  | str s =>
    refine reads_of_succ (.str s) fun fuel rest _ _ => ?_
    rw [Json.str, compactChars, quoted, List.append_assoc, List.cons_append, value, skip_cons rfl]
    simp only [List.singleton_append, text_quoted, Option.map_some]
  | @array js h ih =>
    refine reads_of_succ (.array h) fun fuel rest hfuel _ => ?_
    cases js with
    | nil => rfl
    | cons j js =>
      -- The first item must not be taken for the end of the array.
      obtain ⟨c, cs, hcs, hspace, hne⟩ := (h j List.mem_cons_self).exists_cons
      rw [compactChars, List.cons_append, List.length_cons, List.length_append] at hfuel
      have hitems := items_compactItems ih (Nat.le_of_succ_le_succ hfuel) rest
      rw [hcs] at hitems
      rw [compactChars, hcs, List.append_assoc]
      exact value_array hspace hne hitems
  | @object ms hkeys h ih =>
    refine reads_of_succ (.object hkeys h) fun fuel rest hfuel _ => ?_
    cases ms with
    | nil => rfl
    | cons m ms =>
      obtain ⟨key, j⟩ := m
      obtain ⟨s, rfl⟩ := Option.isSome_iff_exists.1 (hkeys _ List.mem_cons_self)
      rw [compactChars] at hfuel
      simp only [List.cons_append, List.append_assoc, List.length_cons, List.length_append] at hfuel
      have hfuel : (compactChars j).length + (compactMembers ms).length ≤ fuel := by omega
      have hmembers := members_compactMembers hkeys ih hfuel rest
      rw [compactChars, List.append_assoc]
      rw [quoted] at hmembers ⊢
      simp only [List.cons_append, List.append_assoc] at hmembers ⊢
      exact value_object hmembers

/-- A document without fractions and exponents is read back from its compact text. -/
theorem Plain.read_compact (h : Plain j) : read j.compact = some j := by
  have hvalue := h.reads (2 * (compactChars j).length + 2) [] (by omega) nofun
  rw [List.append_nil] at hvalue
  rw [read, compact, String.toList_ofList]
  simp only [hvalue, Option.bind_eq_bind, Option.bind_some]
  rfl

/-! ### Contents -/

theorem itemsRegular_iff : itemsRegular js = true ↔ ∀ j ∈ js, j.isRegular = true := by
  induction js with
  | nil => simp [itemsRegular]
  | cons j js ih => simp [itemsRegular, ih]

theorem membersRegular_iff :
    membersRegular ms = true ↔ ∀ m ∈ ms, m.1.isSome = true ∧ m.2.isRegular = true := by
  induction ms with
  | nil => simp [membersRegular]
  | cons m ms ih =>
    obtain ⟨key, j⟩ := m
    simp [membersRegular, ih]

theorem Plain.isRegular (h : Plain j) : j.isRegular = true := by
  induction h with
  | null | bool | int | str => rfl
  | array h ih => exact itemsRegular_iff.2 ih
  | object hkeys h ih => exact membersRegular_iff.2 fun m hm => ⟨hkeys m hm, ih m hm⟩

end Lineage.Json
