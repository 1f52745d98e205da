import Mathlib.Logic.Relation

/-!
# Chains that end

Where no chain of a relation goes on for ever from `a`, no cycle is met
(`not_transGen_of_acc`), and if few enough elements follow each, few are met in
all (`exists_list_of_acc`). Accessibility is that of the converse: `r a b` is read
as a step from `a` to `b`.
-/

namespace Lineage

variable {α : Type} {r : α → α → Prop} {a : α}

/-- No cycle goes through an element from which all chains end. -/
theorem not_transGen_of_acc (h : Acc (fun b a => r a b) a) : ¬Relation.TransGen r a a := by
  induction h with
  | intro a _ ih =>
    intro hcycle
    obtain ⟨b, hab, hba⟩ := Relation.TransGen.head'_iff.1 hcycle
    exact ih b hab (Relation.TransGen.tail' hba hab)

theorem acc_of_reflTransGen {b : α} (h : Acc (fun b a => r a b) a)
    (hb : Relation.ReflTransGen r a b) : Acc (fun b a => r a b) b := by
  induction hb with
  | refl => exact h
  | tail _ hstep ih => exact ih.inv hstep

/-- A list for each element of a list makes a list for all. -/
theorem exists_list_of_forall {P : α → α → Prop} (as : List α)
    (h : ∀ a ∈ as, ∃ l : List α, ∀ b, P a b → b ∈ l) :
    ∃ l : List α, ∀ a ∈ as, ∀ b, P a b → b ∈ l := by
  induction as with
  | nil => exact ⟨[], fun _ ha => absurd ha List.not_mem_nil⟩
  | cons a as ih =>
    obtain ⟨l, hl⟩ := h a List.mem_cons_self
    obtain ⟨l', hl'⟩ := ih fun a ha => h a (List.mem_cons_of_mem _ ha)
    refine ⟨l ++ l', fun a' ha' b hb => ?_⟩
    rcases List.mem_cons.1 ha' with rfl | ha'
    · exact List.mem_append_left l' (hl b hb)
    · exact List.mem_append_right l (hl' a' ha' b hb)

/-- If all chains end, and finitely many elements follow each, then finitely many
    are met. -/
theorem exists_list_of_acc (hnext : ∀ a, ∃ l : List α, ∀ b, r a b → b ∈ l)
    (h : Acc (fun b a => r a b) a) : ∃ l : List α, ∀ b, Relation.ReflTransGen r a b → b ∈ l := by
  classical
  induction h with
  | intro a _ ih =>
    obtain ⟨next, hnext⟩ := hnext a
    obtain ⟨l, hl⟩ := exists_list_of_forall
      (P := fun a' b => r a a' ∧ Relation.ReflTransGen r a' b) next fun a' _ => by
        by_cases hstep : r a a'
        · obtain ⟨l, hl⟩ := ih a' hstep
          exact ⟨l, fun b hb => hl b hb.2⟩
        · exact ⟨[], fun b hb => absurd hb.1 hstep⟩
    refine ⟨a :: l, fun b hb => ?_⟩
    rcases Relation.ReflTransGen.cases_head hb with rfl | ⟨a', hstep, hb⟩
    · exact List.mem_cons_self
    · exact List.mem_cons_of_mem a (hl a' (hnext a' hstep) b ⟨hstep, hb⟩)

end Lineage
