import Lineage.Function.Evaluation
import Lineage.Proofs.Outcomes
import Mathlib.Algebra.Order.BigOperators.Group.List
import Mathlib.Algebra.Ring.Int.Defs

/-!
# Sums of words

A sum is taken one integer after another, and each running sum has to be a word
(`SumsSigned`). So what is returned is the exact sum, but a sum that is a word may
still overflow on the way (`sumOf_overshoot`), and the order of the integers decides.
Some order avoids it: towards zero first, by any integer of the other sign, as long
as there is one (`exists_perm_sumsSigned`). Where the integers are not of opposite
signs, the sum alone decides (`sumsSigned_of_same_sign`).
-/

namespace Lineage

open Word

variable {is : List Int} {i sum : Int} {name : String}

/-- The running sums from `sum` on are words. -/
def SumsSigned (sum : Int) : List Int → Prop
  | [] => Signed sum
  | i :: is => Signed sum ∧ SumsSigned (sum + i) is

/-- The sum of integers, as a function of so many inputs has it. -/
def sumOf (is : List Int) : Except Error Evaluation :=
  (Function.nary .add is.length).evaluate (is.map .int)

theorem SumsSigned.signed (h : SumsSigned sum is) : Signed sum := by
  cases is with
  | nil => exact h
  | cons i is => exact h.1

theorem sumsSigned_iff :
    SumsSigned sum is ↔ ∀ k ≤ is.length, Signed (sum + (is.take k).sum) := by
  induction is generalizing sum with
  | nil => simp [SumsSigned]
  | cons i is ih =>
    rw [SumsSigned, ih]
    constructor
    · rintro ⟨hsum, h⟩ k hk
      cases k with
      | zero => simpa using hsum
      | succ k => simpa [Int.add_assoc] using h k (Nat.le_of_succ_le_succ hk)
    · intro h
      refine ⟨by simpa using h 0 (Nat.zero_le _), fun k hk => ?_⟩
      simpa [Int.add_assoc] using h (k + 1) (Nat.succ_le_succ hk)

/-- The last running sum is the sum. -/
theorem SumsSigned.signed_sum (h : SumsSigned sum is) : Signed (sum + is.sum) := by
  simpa using sumsSigned_iff.1 h is.length (Nat.le_refl _)

/-! ### The outcome -/

namespace Operator

theorem addStep_int : addStep name sum (.int i) =
    match add? sum i with
    | some sum => .ok sum
    | none => .error (.overflow (.sumIn name)) := rfl

theorem addStep_of_signed (h : Signed (sum + i)) : addStep name sum (.int i) = .ok (sum + i) := by
  rw [addStep_int, add?_eq_some_iff.2 ⟨h, rfl⟩]

theorem addStep_of_not_signed (h : ¬Signed (sum + i)) :
    addStep name sum (.int i) = .error (.overflow (.sumIn name)) := by
  rw [addStep_int, add?, signed?_eq_none_iff.2 h]

theorem foldlM_addStep (h : SumsSigned sum is) :
    (is.map Value.int).foldlM (addStep name) sum = .ok (sum + is.sum) := by
  induction is generalizing sum with
  | nil => exact congrArg _ (Int.add_zero sum).symm
  | cons i is ih =>
    rw [List.map_cons, List.foldlM_cons, addStep_of_signed h.2.signed, List.sum_cons,
      ← Int.add_assoc]
    exact ih h.2

/-- The first running sum that is no word ends it. -/
theorem foldlM_addStep_of_not (hsum : Signed sum) (h : ¬SumsSigned sum is) :
    (is.map Value.int).foldlM (addStep name) sum = .error (.overflow (.sumIn name)) := by
  induction is generalizing sum with
  | nil => exact absurd hsum h
  | cons i is ih =>
    rw [List.map_cons, List.foldlM_cons]
    by_cases hi : Signed (sum + i)
    · rw [addStep_of_signed hi]
      exact ih hi fun hrest => h ⟨hsum, hrest⟩
    · rw [addStep_of_not_signed hi]
      rfl

end Operator

theorem signed_zero : Signed 0 := by decide

theorem sumOf_eq (is : List Int) : sumOf is = (do
    let sum ← (is.map Value.int).foldlM
      (Operator.addStep (Function.nary .add is.length).name) 0
    return ⟨[.int sum], .linkAll is.length⟩) := by
  rw [sumOf, Function.evaluate, Function.checkArity, if_pos (by simp [Function.inArity]),
    Operator.evaluate]
  cases (is.map Value.int).foldlM
    (Operator.addStep (Function.nary .add is.length).name) 0 <;> rfl

theorem sumOf_of_sumsSigned (h : SumsSigned 0 is) :
    sumOf is = .ok ⟨[.int is.sum], .linkAll is.length⟩ := by
  rw [sumOf_eq, Operator.foldlM_addStep h, Int.zero_add]
  rfl

theorem sumOf_of_not_sumsSigned (h : ¬SumsSigned 0 is) :
    sumOf is = .error (.overflow (.sumIn (Function.nary .add is.length).name)) := by
  rw [sumOf_eq, Operator.foldlM_addStep_of_not signed_zero h]
  rfl

theorem sumOf_eq_ok_iff : sumOf is = .ok ⟨[.int is.sum], .linkAll is.length⟩ ↔
    SumsSigned 0 is := by
  refine ⟨fun hok => ?_, sumOf_of_sumsSigned⟩
  by_contra h
  rw [sumOf_of_not_sumsSigned h] at hok
  exact absurd hok nofun

/-! ### The order -/

/-- Between words there are only words, so sums that grow, or shrink, do not leave them before
    the end. -/
theorem sumsSigned_of_same_sign (hsign : (∀ i ∈ is, 0 ≤ i) ∨ ∀ i ∈ is, i ≤ 0) (hsum : Signed sum)
    (htotal : Signed (sum + is.sum)) : SumsSigned sum is := by
  induction is generalizing sum with
  | nil => exact hsum
  | cons i is ih =>
    rw [List.sum_cons] at htotal
    have hrest : (∀ j ∈ is, 0 ≤ j) ∨ ∀ j ∈ is, j ≤ 0 :=
      hsign.imp (List.forall_mem_cons.1 · |>.2) (List.forall_mem_cons.1 · |>.2)
    have hnext : Signed (sum + i) := by
      unfold Signed at hsum htotal ⊢
      rcases hsign with hsign | hsign
      · obtain ⟨hi, his⟩ := List.forall_mem_cons.1 hsign
        have := List.sum_nonneg his
        omega
      · obtain ⟨hi, his⟩ := List.forall_mem_cons.1 hsign
        have : is.sum ≤ 0 := by simpa using List.sum_le_card_nsmul is 0 his
        omega
    exact ⟨hsum, ih hrest hnext (by rwa [Int.add_assoc])⟩

/-- One of the integers can be added next: one that leads towards zero, or any, if all lead away
    from it. -/
theorem exists_next (his : is ≠ []) (h : ∀ i ∈ is, Signed i) (hsum : Signed sum)
    (htotal : Signed (sum + is.sum)) : ∃ i ∈ is, Signed (sum + i) := by
  obtain ⟨i, rest, rfl⟩ := List.exists_cons_of_ne_nil his
  by_cases hback : ∃ j ∈ i :: rest, sum < 0 ∧ 0 ≤ j ∨ 0 ≤ sum ∧ j ≤ 0
  · obtain ⟨j, hj, hback⟩ := hback
    refine ⟨j, hj, ?_⟩
    have hj := h j hj
    unfold Signed at hsum hj ⊢
    omega
  · have hsign : (∀ j ∈ i :: rest, 0 ≤ j) ∨ ∀ j ∈ i :: rest, j ≤ 0 := by
      rcases lt_or_ge sum 0 with hneg | hpos
      · exact .inr fun j hj => (Int.not_le.1 fun hj' => hback ⟨j, hj, .inl ⟨hneg, hj'⟩⟩).le
      · exact .inl fun j hj => (Int.not_le.1 fun hj' => hback ⟨j, hj, .inr ⟨hpos, hj'⟩⟩).le
    exact ⟨i, List.mem_cons_self, (sumsSigned_of_same_sign hsign hsum htotal).2.signed⟩

/-- Some order has no running sum that is no word, if the sum is one. -/
theorem exists_perm_sumsSigned (h : ∀ i ∈ is, Signed i) (hsum : Signed sum)
    (htotal : Signed (sum + is.sum)) : ∃ is', is'.Perm is ∧ SumsSigned sum is' := by
  induction hn : is.length generalizing is sum with
  | zero =>
    obtain rfl := List.eq_nil_of_length_eq_zero hn
    exact ⟨[], .refl _, hsum⟩
  | succ n ih =>
    obtain ⟨i, hi, hnext⟩ := exists_next (List.ne_nil_of_length_eq_add_one hn) h hsum htotal
    have hperm := List.perm_cons_erase hi
    rw [hperm.sum_eq, List.sum_cons, ← Int.add_assoc] at htotal
    obtain ⟨is', hperm', h'⟩ := ih (fun j hj => h j (List.mem_of_mem_erase hj)) hnext htotal
      (by rw [List.length_erase_of_mem hi, hn]; rfl)
    exact ⟨i :: is', (hperm'.cons i).trans hperm.symm, hsum, h'⟩

/-- The sum alone decides: of two integers at most, and of integers that are not of opposite
    signs. -/
theorem sumsSigned_iff_signed (h : ∀ i ∈ is, Signed i)
    (hfew : is.length ≤ 2 ∨ (∀ i ∈ is, 0 ≤ i) ∨ ∀ i ∈ is, i ≤ 0) :
    SumsSigned 0 is ↔ Signed is.sum := by
  refine ⟨fun hsums => by simpa using hsums.signed_sum, fun htotal => ?_⟩
  rcases hfew with hfew | hsign
  · match is, hfew with
    | [], _ => exact signed_zero
    | [i], _ => exact ⟨signed_zero, by simpa [SumsSigned] using h i List.mem_cons_self⟩
    | [i, j], _ =>
      refine ⟨signed_zero, ?_, ?_⟩
      · simpa using h i List.mem_cons_self
      · simpa [SumsSigned] using htotal
  · exact sumsSigned_of_same_sign hsign signed_zero (by simpa using htotal)

/-- What a sum comes to. -/
structure AddsUp (is : List Int) : Prop where
  /-- It is returned if every running sum is a word. -/
  ok_iff : sumOf is = .ok ⟨[.int is.sum], .linkAll is.length⟩ ↔
    ∀ k ≤ is.length, Signed (is.take k).sum
  /-- It overflows otherwise. -/
  overflow_iff : sumOf is = .error (.overflow (.sumIn (Function.nary .add is.length).name)) ↔
    ∃ k ≤ is.length, ¬Signed (is.take k).sum
  /-- It is returned for some order of the integers just if it is a word. -/
  exists_order_iff : (∃ is', is'.Perm is ∧
    sumOf is' = .ok ⟨[.int is.sum], .linkAll is.length⟩) ↔ Signed is.sum
  /-- It decides alone, and for every order, unless the integers are three or more, and of
      opposite signs. -/
  order : is.length ≤ 2 ∨ (∀ i ∈ is, 0 ≤ i) ∨ (∀ i ∈ is, i ≤ 0) →
    (sumOf is = .ok ⟨[.int is.sum], .linkAll is.length⟩ ↔ Signed is.sum) ∧
      ∀ is', is'.Perm is → sumOf is' = sumOf is

theorem addsUp (h : ∀ i ∈ is, Signed i) : AddsUp is := by
  have hprefixes : SumsSigned 0 is ↔ ∀ k ≤ is.length, Signed (is.take k).sum := by
    simp [sumsSigned_iff]
  constructor
  case ok_iff => rw [sumOf_eq_ok_iff, hprefixes]
  case overflow_iff =>
    by_cases hsums : SumsSigned 0 is
    · rw [sumOf_of_sumsSigned hsums]
      refine iff_of_false nofun fun ⟨k, hk, hnot⟩ => hnot (hprefixes.1 hsums k hk)
    · rw [sumOf_of_not_sumsSigned hsums]
      refine iff_of_true rfl ?_
      rw [hprefixes] at hsums
      simpa using hsums
  case exists_order_iff =>
    constructor
    · rintro ⟨is', hperm, hok⟩
      rw [← hperm.sum_eq, ← hperm.length_eq, sumOf_eq_ok_iff] at hok
      simpa [hperm.sum_eq] using hok.signed_sum
    · intro htotal
      obtain ⟨is', hperm, hsums⟩ := exists_perm_sumsSigned h signed_zero (by simpa using htotal)
      refine ⟨is', hperm, ?_⟩
      rw [← hperm.sum_eq, ← hperm.length_eq, sumOf_of_sumsSigned hsums]
  case order =>
    intro hfew
    refine ⟨by rw [sumOf_eq_ok_iff, sumsSigned_iff_signed h hfew], fun is' hperm => ?_⟩
    -- Both orders have the same sum, and are few or of one sign.
    have hsums : SumsSigned 0 is' ↔ SumsSigned 0 is := by
      rw [sumsSigned_iff_signed h hfew, ← hperm.sum_eq]
      refine sumsSigned_iff_signed (fun i hi => h i (hperm.mem_iff.1 hi)) ?_
      simpa only [hperm.length_eq, hperm.mem_iff] using hfew
    by_cases his : SumsSigned 0 is
    · rw [sumOf_of_sumsSigned his, sumOf_of_sumsSigned (hsums.2 his), hperm.sum_eq,
        hperm.length_eq]
    · rw [sumOf_of_not_sumsSigned his, sumOf_of_not_sumsSigned (his ∘ hsums.1), hperm.length_eq]

/-- Three words whose sum is one, by way of a sum that is none. -/
def overshoot : List Int := [9223372036854775807, 1, -1]

theorem addsUp_overshoot : (∀ i ∈ overshoot, Signed i) ∧ AddsUp overshoot :=
  ⟨by decide, addsUp (by decide)⟩

/-- The sum is a word and overflows; in another order, it is returned. -/
theorem sumOf_overshoot : (∀ i ∈ overshoot, Signed i) ∧ Signed overshoot.sum ∧
    sumOf overshoot = .error (.overflow (.sumIn "+/3")) ∧
    sumOf [9223372036854775807, -1, 1] = .ok ⟨[.int 9223372036854775807], .linkAll 3⟩ :=
  ⟨by decide, by decide, rfl, rfl⟩

end Lineage
