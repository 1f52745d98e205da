import Lineage.Error
import Mathlib.Data.List.Forall2
import Mathlib.Logic.Relator

/-!
# Outcomes in order

The elements of a list are taken in order, up to the first that fails. So either
there is an outcome for each element (`mapM_eq_ok_iff`), or the error is that of an
element before which none fails (`exists_of_mapM_error`).
-/

namespace Lineage

variable {α β : Type} {x : Except Error α} {f : α → Except Error β} {as : List α} {bs : List β}

theorem exists_of_bind_ok {b : β} (h : x >>= f = .ok b) : ∃ a, x = .ok a ∧ f a = .ok b := by
  cases x with
  | error e => exact absurd h nofun
  | ok a => exact ⟨a, rfl, h⟩

theorem error_or_error_of_bind {e : Error} (h : x >>= f = .error e) :
    x = .error e ∨ ∃ a, x = .ok a ∧ f a = .error e := by
  cases x with
  | error e' => exact .inl (congrArg _ (Except.error.inj h))
  | ok a => exact .inr ⟨a, rfl, h⟩

/-- There is a list of partners where there is a partner for each element. -/
theorem exists_forall₂_iff {R : α → β → Prop} :
    (∃ bs, List.Forall₂ R as bs) ↔ ∀ a ∈ as, ∃ b, R a b := by
  induction as with
  | nil => exact ⟨fun _ _ h => absurd h List.not_mem_nil, fun _ => ⟨[], .nil⟩⟩
  | cons a as ih =>
    rw [List.forall_mem_cons, ← ih]
    constructor
    · rintro ⟨_, h⟩
      cases h with
      | cons hb hbs => exact ⟨⟨_, hb⟩, _, hbs⟩
    · rintro ⟨⟨b, hb⟩, bs, hbs⟩
      exact ⟨b :: bs, .cons hb hbs⟩

theorem mapM_eq_ok_iff : as.mapM f = .ok bs ↔ List.Forall₂ (fun a b => f a = .ok b) as bs := by
  constructor
  · intro h
    induction as generalizing bs with
    | nil =>
      obtain rfl : [] = bs := Except.ok.inj h
      exact .nil
    | cons a as ih =>
      rw [List.mapM_cons] at h
      obtain ⟨b, hb, h⟩ := exists_of_bind_ok h
      obtain ⟨bs', hbs, h⟩ := exists_of_bind_ok h
      obtain rfl : b :: bs' = bs := Except.ok.inj h
      exact .cons hb (ih hbs)
  · intro h
    induction h with
    | nil => rfl
    | cons hb _ ih =>
      rw [List.mapM_cons, hb, ih]
      rfl

/-- The partner of an element is in its place. -/
theorem rel_getElem? {R : α → β → Prop} (h : List.Forall₂ R as bs) (n : Nat) :
    Option.Rel R as[n]? bs[n]? := by
  induction h generalizing n with
  | nil => exact .none
  | cons hab _ ih =>
    cases n with
    | zero => exact .some hab
    | succ n => exact ih n

/-- The partner of an element is the same in every list, if it has but one. -/
theorem getElem?_congr_of_forall₂ {R : α → β → Prop} (hR : Relator.RightUnique R) {as' : List α}
    {bs' : List β} {n : Nat} (h : List.Forall₂ R as bs) (h' : List.Forall₂ R as' bs')
    (hn : as'[n]? = as[n]?) : bs'[n]? = bs[n]? := by
  have hrel := rel_getElem? h n
  have hrel' := hn ▸ rel_getElem? h' n
  generalize as[n]? = a, bs[n]? = b, bs'[n]? = b' at hrel hrel'
  cases hrel with
  | none =>
    cases hrel'
    rfl
  | some hb =>
    cases hrel' with
    | some hb' => exact congrArg some (hR hb' hb)

/-- Each of the outcomes is that of an element. -/
theorem exists_of_mem_mapM {b : β} (h : as.mapM f = .ok bs) (hb : b ∈ bs) : ∃ a, f a = .ok b :=
  exists_forall₂_iff.1 ⟨as, (mapM_eq_ok_iff.1 h).flip⟩ b hb

/-- The first failure is that of the list. -/
theorem exists_of_mapM_error {e : Error} (h : as.mapM f = .error e) :
    ∃ before a after, as = before ++ a :: after ∧ (∀ a' ∈ before, ∃ b, f a' = .ok b) ∧
      f a = .error e := by
  induction as with
  | nil => exact absurd h nofun
  | cons a as ih =>
    rw [List.mapM_cons] at h
    rcases error_or_error_of_bind h with ha | ⟨b, ha, h⟩
    · exact ⟨[], a, as, rfl, fun _ hmem => absurd hmem List.not_mem_nil, ha⟩
    · rcases error_or_error_of_bind h with hrest | ⟨bs, -, h⟩
      · obtain ⟨before, a', after, rfl, hbefore, ha'⟩ := ih hrest
        exact ⟨a :: before, a', after, rfl, List.forall_mem_cons.2 ⟨⟨b, ha⟩, hbefore⟩, ha'⟩
      · exact absurd h nofun

end Lineage
