import Lineage.Proofs.Designator.Chain
import Mathlib.Data.Int.Interval
import Mathlib.Data.Set.Finite.List

/-!
# Designators within a bound

A bound on the numbers in a designator is kept by the operations on designators.
There are only finitely many designators within a bound and of a bounded length
(`finite_within`); without a bound on the length there are infinitely many, as
chains may repeat.
-/

namespace Lineage

/-- No number in the part exceeds `b`, nor does one of a range fall below `-b`. -/
def Part.Within (b : Nat) : Part → Prop
  | identity => True
  | range r => -(b : Int) ≤ r.start ∧ r.stop ≤ b
  | element n => n ≤ b
  | input n => n ≤ b
  | output n => n ≤ b

/-- All parts are within the bound. -/
def Designator.Within (b : Nat) (d : Designator) : Prop := ∀ p ∈ d.parts, p.Within b

variable {b b' : Nat} {p : Part} {ps : List Part} {d : Designator}

theorem Part.Within.mono (h : b ≤ b') (hp : p.Within b) : p.Within b' := by
  cases p with
  | identity => trivial
  | range r => exact ⟨by have := hp.1; omega, by have := hp.2; omega⟩
  | element n => exact Nat.le_trans hp h
  | input n => exact Nat.le_trans hp h
  | output n => exact Nat.le_trans hp h

theorem Part.exists_within (p : Part) : ∃ b, p.Within b := by
  cases p with
  | identity => exact ⟨0, trivial⟩
  | range r => exact ⟨r.start.natAbs + r.stop.natAbs, by omega, by omega⟩
  | element n => exact ⟨n, Nat.le_refl n⟩
  | input n => exact ⟨n, Nat.le_refl n⟩
  | output n => exact ⟨n, Nat.le_refl n⟩

/-- A bound for each of several things is one for all of them. -/
theorem exists_bound {α : Type} {P : Nat → α → Prop} (hmono : ∀ b b' a, b ≤ b' → P b a → P b' a)
    (as : List α) (h : ∀ a ∈ as, ∃ b, P b a) : ∃ b, ∀ a ∈ as, P b a := by
  induction as with
  | nil => exact ⟨0, fun _ ha => absurd ha List.not_mem_nil⟩
  | cons a as ih =>
    obtain ⟨b, hb⟩ := h a List.mem_cons_self
    obtain ⟨b', hb'⟩ := ih fun a ha => h a (List.mem_cons_of_mem _ ha)
    refine ⟨max b b', fun a' ha' => ?_⟩
    rcases List.mem_cons.1 ha' with rfl | ha'
    · exact hmono b _ _ (Nat.le_max_left b b') hb
    · exact hmono b' _ _ (Nat.le_max_right b b') (hb' a' ha')

namespace Designator

theorem Within.mono (h : b ≤ b') (hd : d.Within b) : d.Within b' := fun p hp => (hd p hp).mono h

theorem exists_within (d : Designator) : ∃ b, d.Within b :=
  exists_bound (P := Part.Within) (fun _ _ _ h => Part.Within.mono h) d.parts fun p _ =>
    p.exists_within

theorem within_compose (h : ∀ p ∈ ps, p.Within b) : (compose ps).Within b := fun p hp =>
  h p (List.mem_of_mem_filter hp)

theorem Within.nest (hd : d.Within b) (h : ∀ p ∈ ps, p.Within b) : (nest ps d).Within b :=
  fun p hp => by
    rw [parts_nest] at hp
    rcases List.mem_append.1 hp with hp | hp
    · exact h p (List.mem_of_mem_filter hp)
    · exact hd p hp

theorem Within.rest (hd : d.Within b) : d.rest.Within b := fun p hp => by
  rw [parts_rest] at hp
  exact hd p (List.mem_of_mem_tail hp)

theorem Within.head (hd : d.Within b) : d.head.Within b := by
  by_cases h : d.head = .identity
  · rw [h]
    trivial
  · exact hd _ (by rw [parts_eq_of_head rfl h]; exact List.mem_cons_self)

theorem within_of_rest (hhead : d.head.Within b) (hrest : d.rest.Within b) : d.Within b :=
  fun p hp => by
    rw [Within, parts_rest] at hrest
    cases hd : d.parts with
    | nil => exact absurd (hd ▸ hp) List.not_mem_nil
    | cons q ps =>
      rw [hd] at hp hrest
      rcases List.mem_cons.1 hp with rfl | hp
      · exact head_of_parts hd ▸ hhead
      · exact hrest p hp

end Designator

/-! ### Finitely many -/

theorem Part.finite_within (b : Nat) : {p : Part | p.Within b}.Finite := by
  have hranges : {r : Range | -(b : Int) ≤ r.start ∧ r.stop ≤ b}.Finite := by
    have hinj : Function.Injective fun r : Range => (r.start, r.stop) := by
      rintro ⟨_, _, _⟩ ⟨_, _, _⟩ h
      cases h
      rfl
    refine (((Set.finite_Icc (-(b : Int)) b).prod (Set.finite_Icc (-(b : Int)) b)).preimage
      hinj.injOn).subset fun r hr => ?_
    have := r.start_le_stop
    obtain ⟨hstart, hstop⟩ := hr
    exact ⟨⟨hstart, this.trans hstop⟩, ⟨hstart.trans this, hstop⟩⟩
  have hnumbers : {n : Nat | n ≤ b}.Finite := Set.finite_le_nat b
  refine ((((hranges.image range).union (hnumbers.image element)).union
    ((hnumbers.image input).union (hnumbers.image output))).union
    (Set.finite_singleton identity)).subset fun p hp => ?_
  cases p with
  | identity => exact .inr rfl
  | range r => exact .inl (.inl (.inl ⟨r, hp, rfl⟩))
  | element n => exact .inl (.inl (.inr ⟨n, hp, rfl⟩))
  | input n => exact .inl (.inr (.inl ⟨n, hp, rfl⟩))
  | output n => exact .inl (.inr (.inr ⟨n, hp, rfl⟩))

/-- Finitely many designators are within a bound and of a bounded length. -/
theorem Designator.finite_within (b n : Nat) :
    {d : Designator | d.Within b ∧ d.length ≤ n}.Finite := by
  have : Finite {p : Part // p.Within b} := Part.finite_within b
  have hlists := (List.finite_length_le {p : Part // p.Within b} n).image (List.map Subtype.val)
  refine (hlists.preimage (f := Designator.parts) fun _ _ _ _ h => eq_of_parts h).subset ?_
  rintro d ⟨hd, hn⟩
  have hd : ∀ p ∈ d.parts, p.Within b := hd
  refine ⟨d.parts.attachWith (·.Within b) hd, ?_, List.attachWith_map_subtype_val hd⟩
  exact List.length_attachWith.trans_le hn

end Lineage
