import Lineage.Designator.Json
import Lineage.Proofs.Designator.Chain
import Lineage.Proofs.Json.Value
import Lineage.Proofs.Outcomes
import Mathlib.Data.List.Forall2

/-!
# Reading printed designators

Ranges, parts and designators are read back from what they print. What is read of any other
text is checked: a document may give two ends of a range in any order (`Range.HoldsEnds`), but
it holds a range, alone or in a part, only if they are in order (`Range.Holds`, `Part.Holds`);
and of the parts that an array holds, the identities are no parts of the designator. A document
that does not hold a thing is refused (`Json.validates`).
-/

namespace Lineage

/-! ### Words -/

namespace Json

variable {j : Json} {i : Int} {n : Nat}

theorem signed?_eq_some_iff : j.signed? = some i ↔ j = .int i ∧ Word.Signed i := by
  constructor
  · intro h
    cases j with
    | int i' =>
      obtain ⟨hi, rfl⟩ := Word.signed?_eq_some_iff.1 h
      exact ⟨rfl, hi⟩
    | _ => exact absurd h nofun
  · rintro ⟨rfl, h⟩
    exact Word.signed?_eq_some_iff.2 ⟨h, rfl⟩

theorem unsigned?_eq_some_iff : j.unsigned? = some n ↔ j = .nat n ∧ Word.Unsigned n := by
  constructor
  · intro h
    rw [unsigned?.eq_def] at h
    split at h
    · obtain ⟨hn, rfl⟩ := Word.unsigned?_eq_some_iff.1 h
      exact ⟨rfl, hn⟩
    · exact absurd h nofun
  · rintro ⟨rfl, h⟩
    exact Word.unsigned?_eq_some_iff.2 ⟨h, rfl⟩

end Json

/-! ### Ranges -/

namespace Range

variable {j : Json} {r : Range} {start stop start' stop' : Int}

/-- The document gives the ends of a range, in an array or in an object, whether they are in
    order or not. -/
inductive HoldsEnds : Json → Int → Int → Prop where
  | array (start stop : Int) : HoldsEnds (.array [.int start, .int stop]) start stop
  | object {members : List (Option String × Json)} {start stop : Int}
    (hkeys : ∀ m ∈ members, m.1.isSome) (hstart : Json.field? members "start" = some (.int start))
    (hstop : Json.field? members "end" = some (.int stop)) :
    HoldsEnds (.object members) start stop

/-- A document gives no other ends. -/
theorem HoldsEnds.unique (h : HoldsEnds j start stop) (h' : HoldsEnds j start' stop') :
    start' = start ∧ stop' = stop := by
  cases h with
  | array =>
    cases h'
    exact ⟨rfl, rfl⟩
  | object _ hstart hstop =>
    cases h' with
    | object _ hstart' hstop' =>
      exact ⟨Json.int.inj (Option.some.inj (hstart'.symm.trans hstart)),
        Json.int.inj (Option.some.inj (hstop'.symm.trans hstop))⟩

/-- The document holds the range: it gives its ends, which are words. -/
def Holds (j : Json) (r : Range) : Prop := HoldsEnds j r.start r.stop ∧ r.Bounded

theorem ofJsonEnds?_eq_some_iff {a b : Json} : ofJsonEnds? a b = some r ↔
    a = .int r.start ∧ b = .int r.stop ∧ r.Bounded := by
  simp only [ofJsonEnds?, Option.bind_eq_bind, Option.bind_eq_some_iff,
    toOption_ofEnds_eq_some_iff, Json.signed?_eq_some_iff]
  constructor
  · rintro ⟨_, ⟨rfl, hstart⟩, _, ⟨rfl, hstop⟩, hr, hr'⟩
    exact ⟨by rw [hr], by rw [hr'], hr ▸ hstart, hr' ▸ hstop⟩
  · rintro ⟨rfl, rfl, hr⟩
    exact ⟨_, ⟨rfl, hr.1⟩, _, ⟨rfl, hr.2⟩, rfl, rfl⟩

theorem ofJson?_eq_some_iff : ofJson? j = some r ↔ Holds j r := by
  constructor
  · intro h
    rw [ofJson?.eq_def] at h
    split at h
    · obtain ⟨rfl, rfl, hr⟩ := ofJsonEnds?_eq_some_iff.1 h
      exact ⟨.array r.start r.stop, hr⟩
    · next members =>
      split at h
      · next hkeys =>
        obtain ⟨a, ha, h⟩ := Option.bind_eq_some_iff.1 h
        obtain ⟨b, hb, h⟩ := Option.bind_eq_some_iff.1 h
        obtain ⟨rfl, rfl, hr⟩ := ofJsonEnds?_eq_some_iff.1 h
        exact ⟨.object (List.all_eq_true.1 hkeys) ha hb, hr⟩
      · exact absurd h nofun
    · exact absurd h nofun
  · rintro ⟨hends, hr⟩
    have hread : ofJsonEnds? (.int r.start) (.int r.stop) = some r :=
      ofJsonEnds?_eq_some_iff.2 ⟨rfl, rfl, hr⟩
    generalize r.start = start, r.stop = stop at hends hread
    cases hends with
    | array => exact hread
    | object hkeys hstart hstop =>
      rw [ofJson?, if_pos (List.all_eq_true.2 hkeys), hstart, hstop]
      exact hread

theorem holds_toJson (h : r.Bounded) : Holds r.toJson r := by
  refine ⟨.object (fun m hm => ?_) rfl rfl, h⟩
  obtain ⟨m', -, rfl⟩ := List.mem_map.1 hm
  rfl

theorem Bounded.plain_toJson (h : r.Bounded) : r.toJson.Plain := by
  refine .object (fun m hm => ?_) (fun m hm => ?_)
  · obtain ⟨m', -, rfl⟩ := List.mem_map.1 hm
    rfl
  · simp only [List.map_cons, List.map_nil, List.mem_cons, List.not_mem_nil, or_false] at hm
    rcases hm with rfl | rfl
    · exact .int (Json.isWord_of_signed h.1)
    · exact .int (Json.isWord_of_signed h.2)

/-- Ends in the wrong order are those of no range. -/
theorem HoldsEnds.not_holds (h : HoldsEnds j start stop) (hlt : stop < start) : ¬Holds j r := by
  rintro ⟨hends, -⟩
  obtain ⟨hstart, hstop⟩ := h.unique hends
  have hr := r.start_le_stop
  omega

end Range

/-! ### Parts -/

namespace Part

variable {j : Json} {p : Part}

/-- The document holds the part. -/
inductive Holds : Json → Part → Prop where
  | identity {j : Json} (h : j.word? = some "Identity") : Holds j identity
  | range {j : Json} {r : Range} (h : Range.Holds j r) :
    Holds (.object [(some "Range", j)]) (range r)
  | element {n : Nat} (h : Word.Unsigned n) :
    Holds (.object [(some "NthElement", .nat n)]) (element n)
  | input {n : Nat} (h : Word.Unsigned n) :
    Holds (.object [(some "NthInput", .nat n)]) (input n)
  | output {n : Nat} (h : Word.Unsigned n) :
    Holds (.object [(some "NthOutput", .nat n)]) (output n)

/-- An object that names a kind of part is no word. -/
theorem word?_object_ne {key : String} (hkey : key ≠ "Identity") :
    (Json.object [(some key, j)]).word? ≠ some "Identity" := by
  cases j <;> simp [Json.word?, hkey]

theorem ofJson?_eq_some_iff : ofJson? j = some p ↔ Holds j p := by
  constructor
  · intro h
    unfold ofJson? at h
    split at h
    · next hword =>
      obtain rfl := Option.some.inj h
      exact .identity hword
    · split at h
      · obtain ⟨r, hr, rfl⟩ := Option.map_eq_some_iff.1 h
        exact .range (Range.ofJson?_eq_some_iff.1 hr)
      · obtain ⟨n, hn, rfl⟩ := Option.map_eq_some_iff.1 h
        obtain ⟨rfl, hword⟩ := Json.unsigned?_eq_some_iff.1 hn
        exact .element hword
      · obtain ⟨n, hn, rfl⟩ := Option.map_eq_some_iff.1 h
        obtain ⟨rfl, hword⟩ := Json.unsigned?_eq_some_iff.1 hn
        exact .input hword
      · obtain ⟨n, hn, rfl⟩ := Option.map_eq_some_iff.1 h
        obtain ⟨rfl, hword⟩ := Json.unsigned?_eq_some_iff.1 hn
        exact .output hword
      · exact absurd h nofun
  · intro h
    have hindex {n : Nat} (hn : Word.Unsigned n) : (Json.nat n).unsigned? = some n :=
      Json.unsigned?_eq_some_iff.2 ⟨rfl, hn⟩
    unfold ofJson?
    cases h with
    | identity hword => rw [if_pos hword]
    | range hr =>
      rw [if_neg (word?_object_ne (by decide))]
      exact Option.map_eq_some_iff.2 ⟨_, Range.ofJson?_eq_some_iff.2 hr, rfl⟩
    | element hn | input hn | output hn =>
      rw [if_neg (word?_object_ne (by decide))]
      exact Option.map_eq_some_iff.2 ⟨_, hindex hn, rfl⟩

/-- The only part that an object with the key `Range` may hold is a range. -/
theorem Holds.exists_range (h : Holds (.object [(some "Range", j)]) p) :
    ∃ r, Range.Holds j r := by
  generalize hdoc : Json.object [(some "Range", j)] = doc at h
  cases h with
  | identity hword => exact absurd (hdoc ▸ hword) (word?_object_ne (by decide))
  | @range j' r hr =>
    obtain rfl : j = j' := by simpa using hdoc
    exact ⟨r, hr⟩
  | element | input | output => simp at hdoc

theorem holds_toJson (h : p.Bounded) : Holds p.toJson p := by
  cases p with
  | identity => exact .identity rfl
  | range r => exact .range (Range.holds_toJson h)
  | element n => exact .element h
  | input n => exact .input h
  | output n => exact .output h

theorem plain_index {key : String} {n : Nat} (h : Word.Unsigned n) :
    (Json.obj [(key, .nat n)]).Plain :=
  Json.plain_member (.int (i := .ofNat n) h)

theorem Bounded.plain_toJson (h : p.Bounded) : p.toJson.Plain := by
  cases p with
  | identity => exact .str "Identity"
  | range r => exact Json.plain_member (Range.Bounded.plain_toJson h)
  | element n => exact plain_index h
  | input n => exact plain_index h
  | output n => exact plain_index h

end Part

/-! ### Designators -/

namespace Designator

variable {j : Json} {d : Designator}

/-- The document holds the designator: an array that holds its parts, and maybe identities among
    them. -/
def Holds (j : Json) (d : Designator) : Prop :=
  ∃ items parts, j = .array items ∧ List.Forall₂ Part.Holds items parts ∧
    d.parts = parts.filter (· ≠ .identity)

theorem mapM_ofJson?_eq_some_iff {items : List Json} {parts : List Part} :
    items.mapM Part.ofJson? = some parts ↔ List.Forall₂ Part.Holds items parts := by
  constructor
  · intro h
    induction items generalizing parts with
    | nil =>
      obtain rfl : [] = parts := Option.some.inj h
      exact .nil
    | cons j items ih =>
      rw [List.mapM_cons] at h
      obtain ⟨p, hp, h⟩ := Option.bind_eq_some_iff.1 h
      obtain ⟨ps, hps, h⟩ := Option.bind_eq_some_iff.1 h
      obtain rfl : p :: ps = parts := Option.some.inj h
      exact .cons (Part.ofJson?_eq_some_iff.1 hp) (ih hps)
  · intro h
    induction h with
    | nil => rfl
    | cons hp _ ih =>
      rw [List.mapM_cons, Part.ofJson?_eq_some_iff.2 hp, ih]
      rfl

theorem ofJson?_eq_some_iff : ofJson? j = some d ↔ Holds j d := by
  constructor
  · intro h
    unfold ofJson? at h
    split at h
    · obtain ⟨parts, hparts, rfl⟩ := Option.map_eq_some_iff.1 h
      exact ⟨_, parts, rfl, mapM_ofJson?_eq_some_iff.1 hparts, rfl⟩
    · exact absurd h nofun
  · rintro ⟨items, parts, rfl, hparts, hd⟩
    exact Option.map_eq_some_iff.2 ⟨parts, mapM_ofJson?_eq_some_iff.2 hparts, eq_of_parts hd.symm⟩

/-- No part is dropped when a designator is read back. -/
theorem holds_toJson (h : d.Bounded) : Holds d.toJson d := by
  refine ⟨_, d.parts, rfl, ?_, congrArg parts d.compose_parts.symm⟩
  rw [List.forall₂_map_left_iff, List.forall₂_same]
  exact fun p hp => Part.holds_toJson (h p hp)

theorem Bounded.plain_toJson (h : d.Bounded) : d.toJson.Plain :=
  .array (List.forall_mem_map.2 fun p hp => (h p hp).plain_toJson)

end Designator

/-! ### Texts -/

namespace Json

theorem readAs_eq_ok_iff {α : Type} {decode : Json → Option α} {text : String} {a : α} :
    readAs decode text = .ok a ↔ ∃ j, read text = some j ∧ decode j = some a := by
  rw [← Option.bind_eq_some_iff, readAs]
  cases (read text).bind decode with
  | none => simp
  | some a => rw [Except.ok.injEq, Option.some_inj]

/-- What is not held is refused. -/
theorem readAs_eq_error {α : Type} {decode : Json → Option α} {text : String} {j : Json}
    (hj : read text = some j) (h : ∀ a, decode j ≠ some a) :
    readAs decode text = .error (.read .json) := by
  rw [readAs, hj, Option.bind_some, Option.eq_none_iff_forall_ne_some.2 h]

/-- What is known of the ranges, parts and designators that a text holds. -/
structure Validates (text : String) : Prop where
  range_iff : ∀ r, Range.read text = .ok r ↔ ∃ j, read text = some j ∧ Range.Holds j r
  part_iff : ∀ p, Part.readJson text = .ok p ↔ ∃ j, read text = some j ∧ Part.Holds j p
  designator_iff : ∀ d, Designator.readJson text = .ok d ↔
    ∃ j, read text = some j ∧ Designator.Holds j d
  /-- The ends of a range are in order. -/
  range_ordered : ∀ r, Range.read text = .ok r → r.start ≤ r.stop
  part_ordered : ∀ r, Part.readJson text = .ok (.range r) → r.start ≤ r.stop
  designator_ordered : ∀ d, Designator.readJson text = .ok d →
    ∀ r, .range r ∈ d.parts → r.start ≤ r.stop
  /-- No identity is a part of a designator. -/
  no_identity : ∀ d, Designator.readJson text = .ok d → .identity ∉ d.parts
  /-- Ends that are not in order are refused, wherever they stand. -/
  refused : ∀ j start stop, Range.HoldsEnds j start stop → stop < start →
    (read text = some j → Range.read text = .error (.read .json)) ∧
    (read text = some (.object [(some "Range", j)]) →
      Part.readJson text = .error (.read .json)) ∧
    ∀ items, .object [(some "Range", j)] ∈ items → read text = some (.array items) →
      Designator.readJson text = .error (.read .json)

theorem validates (text : String) : Validates text where
  range_iff r := by simp only [Range.read, readAs_eq_ok_iff, Range.ofJson?_eq_some_iff]
  part_iff p := by simp only [Part.readJson, readAs_eq_ok_iff, Part.ofJson?_eq_some_iff]
  designator_iff d := by
    simp only [Designator.readJson, readAs_eq_ok_iff, Designator.ofJson?_eq_some_iff]
  range_ordered r _ := r.start_le_stop
  part_ordered r _ := r.start_le_stop
  designator_ordered _ _ r _ := r.start_le_stop
  no_identity d _ := d.identity_not_mem
  refused j start stop hends hlt := by
    have hpart (p : Part) : ¬Part.Holds (.object [(some "Range", j)]) p := fun hp => by
      obtain ⟨r, hr⟩ := hp.exists_range
      exact hends.not_holds hlt hr
    refine ⟨fun hj => ?_, fun hj => ?_, fun items hmem hj => ?_⟩
    · exact readAs_eq_error hj fun r hr => hends.not_holds hlt (Range.ofJson?_eq_some_iff.1 hr)
    · exact readAs_eq_error hj fun p hp => hpart p (Part.ofJson?_eq_some_iff.1 hp)
    · refine readAs_eq_error hj fun d hd => ?_
      obtain ⟨_, parts, heq, hparts, -⟩ := Designator.ofJson?_eq_some_iff.1 hd
      obtain rfl := Json.array.inj heq
      -- Each item of the array would hold a part.
      obtain ⟨p, hp⟩ := exists_forall₂_iff.1 ⟨parts, hparts⟩ _ hmem
      exact hpart p hp

end Json

/-- Values, ranges, parts and designators are read back from what they print, and whatever else is
    read is checked. -/
theorem readsBack :
    (∀ v : Value, v.Bounded → v.toJson.depth ≤ 127 → Value.read v.toJson.compact = .ok v) ∧
    (∀ r : Range, r.Bounded → Range.read r.toJson.compact = .ok r) ∧
    (∀ p : Part, p.Bounded → Part.readJson p.toJson.compact = .ok p) ∧
    (∀ d : Designator, d.Bounded → Designator.readJson d.toJson.compact = .ok d) ∧
    ∀ text, Json.Validates text := by
  refine ⟨fun v hv hdepth => ?_, fun r hr => ?_, fun p hp => ?_, fun d hd => ?_, Json.validates⟩
  · exact hv.read_compact.trans (if_pos hdepth)
  · exact ((Json.validates _).range_iff r).2
      ⟨_, hr.plain_toJson.read_compact, Range.holds_toJson hr⟩
  · exact ((Json.validates _).part_iff p).2
      ⟨_, hp.plain_toJson.read_compact, Part.holds_toJson hp⟩
  · exact ((Json.validates _).designator_iff d).2
      ⟨_, hd.plain_toJson.read_compact, Designator.holds_toJson hd⟩

/-- Lists in lists, characters that are escaped and others, and the least word. -/
def mixed : Value :=
  .list [.list [], .list [.str "a\"\\\n\x01é😀", .int (-9223372036854775808)], .bool true]

/-- The greatest index, all positions before the first, and the first. -/
def spanning : Designator :=
  .compose [.output 18446744073709551615,
    .range ⟨-9223372036854775808, -1, by decide⟩, .range (.single 0)]

theorem bounded_mixed : mixed.Bounded := by
  refine .list fun v hv => ?_
  simp only [List.mem_cons, List.not_mem_nil, or_false] at hv
  rcases hv with rfl | rfl | rfl
  · exact .list nofun
  · refine .list fun v hv => ?_
    simp only [List.mem_cons, List.not_mem_nil, or_false] at hv
    rcases hv with rfl | rfl
    · exact .str _
    · exact .int (by decide)
  · exact .bool true

/-- The parts of a designator, of which the last is a range with ends in the wrong order. -/
def reversed : Json :=
  .array [Part.identity.toJson, (Part.input 0).toJson,
    .object [(some "Range", .array [.int 2, .int 1])]]

theorem plain_reversed : reversed.Plain := by
  have hone (i : Int) (hi : Word.Signed i) : (Json.int i).Plain := .int (Json.isWord_of_signed hi)
  refine .array fun j hj => ?_
  simp only [List.mem_cons, List.not_mem_nil, or_false] at hj
  rcases hj with rfl | rfl | rfl
  · exact Part.Bounded.plain_toJson (by decide)
  · exact Part.Bounded.plain_toJson (by decide)
  · refine Json.plain_member (.array fun j hj => ?_)
    simp only [List.mem_cons, List.not_mem_nil, or_false] at hj
    rcases hj with rfl | rfl
    · exact hone 2 (by decide)
    · exact hone 1 (by decide)

/-- Both are read back, and a range among other parts is not read if its ends are the wrong way
    round. -/
theorem readsBack_mixed : mixed.toJson.depth = 5 ∧ Value.read mixed.toJson.compact = .ok mixed ∧
    Designator.readJson spanning.toJson.compact = .ok spanning ∧
    reversed.compact = "[\"Identity\",\x7b\"NthInput\":0\x7d,\x7b\"Range\":[2,1]\x7d]" ∧
    Designator.readJson reversed.compact = .error (.read .json) := by
  have hdepth : mixed.toJson.depth = 5 := by rfl
  obtain ⟨hvalue, -, -, hdesignator, hvalidates⟩ := readsBack
  refine ⟨hdepth, hvalue mixed bounded_mixed (by rw [hdepth]; decide),
    hdesignator spanning (by decide), by decide +kernel, ?_⟩
  exact ((hvalidates _).refused _ 2 1 (.array 2 1) (by decide)).2.2 _ (by simp)
    plain_reversed.read_compact

end Lineage
