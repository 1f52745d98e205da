import Lineage.Proofs.Json.Compact
import Lineage.Value.Json

/-!
# Reading printed values

A value whose integers are words is read back from what it prints (`Bounded.read_compact`),
unless its lists nest too deeply for the reader: every list is two levels of JSON, the object
that names its kind and the array of its items. Strings may hold any characters.
-/

namespace Lineage

namespace Json

variable {j : Json}

/-- An object with one member is plain if the member is. -/
theorem plain_member {key : String} (h : j.Plain) : (obj [(key, j)]).Plain := by
  refine .object (fun m hm => ?_) (fun m hm => ?_)
  · obtain rfl := List.mem_singleton.1 hm
    rfl
  · obtain rfl := List.mem_singleton.1 hm
    exact h

/-- A signed word is one that the reader of numbers takes for an integer. -/
theorem isWord_of_signed {i : Int} (h : Word.Signed i) : IsWord i := by
  cases i with
  | ofNat n =>
    have hn : n < 9223372036854775808 := by
      have hi : (n : Int) < 9223372036854775808 := h.2
      omega
    exact Nat.le_of_lt (Nat.lt_trans hn (by decide))
  | negSucc n => exact h

end Json

namespace Value

variable {v : Value} {vs : List Value}

/-- The integers in the value are words. -/
inductive Bounded : Value → Prop where
  | bool (b : Bool) : Bounded (bool b)
  | int {i : Int} (h : Word.Signed i) : Bounded (int i)
  | str (s : String) : Bounded (str s)
  | list {items : List Value} (h : ∀ v ∈ items, Bounded v) : Bounded (list items)

theorem Bounded.plain_toJson (h : v.Bounded) : v.toJson.Plain := by
  induction h with
  | bool b => exact Json.plain_member (.bool b)
  | int h => exact Json.plain_member (.int (Json.isWord_of_signed h))
  | str s => exact Json.plain_member (.str s)
  | @list items _ ih =>
    rw [toJson, toJsons_eq_map]
    exact Json.plain_member (.array (List.forall_mem_map.2 ih))

/-- Items are decoded one by one. -/
theorem ofJsons?_toJsons (h : ∀ v ∈ vs, ofJson? v.toJson = some v) :
    ofJsons? (toJsons vs) = some vs := by
  induction vs with
  | nil => rw [toJsons, ofJsons?]
  | cons v vs ih =>
    obtain ⟨hv, hvs⟩ := List.forall_mem_cons.1 h
    rw [toJsons, ofJsons?, hv, ih hvs]
    rfl

theorem Bounded.ofJson?_toJson (h : v.Bounded) : ofJson? v.toJson = some v := by
  induction h with
  | bool b =>
    rw [toJson]
    rfl
  | @int i h =>
    have hsigned : Word.signed? i = some i := Word.signed?_eq_some_iff.2 ⟨h, rfl⟩
    simp [toJson, Json.obj, ofJson?, hsigned]
  | str s => simp [toJson, Json.obj, Json.str, ofJson?]
  | list _ ih => simp [toJson, Json.obj, ofJson?, ofJsons?_toJsons ih]

/-- What is nested too deeply is not read, and everything else is. -/
theorem Bounded.read_compact (h : v.Bounded) : read v.toJson.compact =
    if v.toJson.depth ≤ Json.maxDepth then .ok v else .error (.read .json) := by
  have hread : Json.read v.toJson.compact = some v.toJson := h.plain_toJson.read_compact
  rw [read, Json.readAs, hread, Option.bind_some, h.ofJson?_toJson]
  by_cases hdepth : v.toJson.depth ≤ Json.maxDepth <;> simp [hdepth]

end Value

end Lineage
