import Lineage.Proofs.Tree.Paths

/-!
# Qualities of paths

The quality of a path depends only on which qualities its links have, and not on their order or
number (`Quality.joint`, `pathQualityFrom?_eq`). So a path has a quality just if it is a path along
links of which none is an over-approximation or none an under-approximation, and where a path is
split makes no difference (`Qualified`).

A path is given by its nodes. Where two links lead to the same child, its quality is that of the
first, so what links a path takes is asked of trees without such links only.
-/

namespace Lineage

namespace Quality

variable {q q' : Quality} {qs : List Quality}

/-- The quality of several links together. -/
def joint (qs : List Quality) : Option Quality :=
  if overApprox ∈ qs then if underApprox ∈ qs then none else some overApprox
  else if underApprox ∈ qs then some underApprox else some exact

/-- To compose two of the links changes nothing. -/
theorem joint_cons_cons : joint (q :: q' :: qs) = (q.compose q').bind fun q => joint (q :: qs) := by
  cases q <;> cases q' <;> simp [compose, joint]

/-- Nor does it matter that one is composed with the others. -/
theorem bind_joint : (joint qs).bind q.compose = joint (q :: qs) := by
  by_cases ho : overApprox ∈ qs <;> by_cases hu : underApprox ∈ qs <;> cases q <;>
    simp [compose, joint, ho, hu]

theorem joint_singleton : joint [q] = some q := by cases q <;> rfl

theorem joint_exact_cons : joint (exact :: qs) = joint qs := by simp [joint]

theorem joint_eq_none_iff : joint qs = none ↔ overApprox ∈ qs ∧ underApprox ∈ qs := by
  rw [joint]
  split <;> split <;> simp [*]

/-- The weakest link wins. -/
theorem joint_eq_some_iff : joint qs = some q ↔ (q = overApprox ↔ overApprox ∈ qs) ∧
    (q = underApprox ↔ underApprox ∈ qs) := by
  by_cases ho : overApprox ∈ qs <;> by_cases hu : underApprox ∈ qs <;> cases q <;>
    simp [joint, ho, hu]

end Quality

namespace Tree

variable {t : Tree} {q : Quality} {i j id : NodeId} {path front back : List NodeId}

/-! ### The qualities of the links along a path -/

/-- The qualities of the links along a path, if there are such links. -/
def qualities? (t : Tree) : List NodeId → Option (List Quality)
  | source :: target :: path => do
    let q ← t.linkQuality? source target
    (qualities? t (target :: path)).map (q :: ·)
  | _ => some []

/-- Some link along a path is of quality `q`. -/
def Takes (t : Tree) (path : List NodeId) (q : Quality) : Prop :=
  ∃ i, ∃ e ∈ t.children i, [i, e.target] <:+: path ∧ e.quality = q

theorem pathQualityFrom?_cons_cons : t.pathQualityFrom? q (i :: j :: path) =
    (t.linkQuality? i j).bind fun link =>
      (q.compose link).bind (t.pathQualityFrom? · (j :: path)) := rfl

theorem pathQualityFrom?_eq (q : Quality) (path : List NodeId) :
    t.pathQualityFrom? q path = (t.qualities? path).bind fun qs => Quality.joint (q :: qs) := by
  induction path generalizing q with
  | nil => exact Quality.joint_singleton.symm
  | cons i path ih =>
    cases path with
    | nil => exact Quality.joint_singleton.symm
    | cons j path =>
      rw [pathQualityFrom?_cons_cons, qualities?]
      cases t.linkQuality? i j with
      | none => rfl
      | some link =>
        -- What is missing is missing in either order, so all links may be looked up first.
        calc (q.compose link).bind (t.pathQualityFrom? · (j :: path))
            = (q.compose link).bind fun q => (t.qualities? (j :: path)).bind fun qs =>
                Quality.joint (q :: qs) := by simp only [ih]
          _ = (t.qualities? (j :: path)).bind fun qs => (q.compose link).bind fun q =>
                Quality.joint (q :: qs) := Option.bind_comm _ _
          _ = (t.qualities? (j :: path)).bind fun qs => Quality.joint (q :: link :: qs) := by
                simp only [Quality.joint_cons_cons]
          _ = ((t.qualities? (j :: path)).map (link :: ·)).bind fun qs =>
                Quality.joint (q :: qs) := by rw [Option.bind_map]; rfl

theorem pathQuality?_eq : t.pathQuality? path = (t.qualities? path).bind Quality.joint := by
  rw [pathQuality?, pathQualityFrom?_eq]
  simp only [Quality.joint_exact_cons]

/-- The first part of a path is composed before the rest. -/
theorem pathQualityFrom?_append (q : Quality) : t.pathQualityFrom? q (front ++ id :: back) =
    (t.pathQualityFrom? q (front ++ [id])).bind (t.pathQualityFrom? · (id :: back)) := by
  induction front generalizing q with
  | nil => rfl
  | cons i front ih =>
    -- The second node is the first of what is left, or the one at which the path is split.
    obtain ⟨j, rest, hrest⟩ : ∃ j rest, front ++ [id] = j :: rest :=
      List.exists_cons_of_ne_nil (List.append_ne_nil_of_right_ne_nil _ (List.cons_ne_nil _ _))
    have hsplit : front ++ id :: back = j :: (rest ++ back) := by
      rw [List.append_cons, hrest, List.cons_append]
    rw [hsplit, hrest] at ih
    rw [List.cons_append, List.cons_append, hsplit, hrest, pathQualityFrom?_cons_cons,
      pathQualityFrom?_cons_cons, Option.bind_assoc]
    simp only [ih, Option.bind_assoc]

/-- To compose the qualities of the parts of a path is to compose those of its links. -/
theorem pathQuality?_append : t.pathQuality? (front ++ id :: back) =
    (t.pathQuality? (front ++ [id])).bind fun q =>
      (t.pathQuality? (id :: back)).bind q.compose := by
  rw [pathQuality?, pathQualityFrom?_append]
  refine congrArg _ (funext fun q => ?_)
  rw [pathQualityFrom?_eq, pathQuality?_eq, Option.bind_assoc]
  simp only [Quality.bind_joint]

/-! ### Links between given nodes -/

theorem linkQuality?_eq_none_iff : t.linkQuality? i j = none ↔ ¬t.Linked i j := by
  rw [linkQuality?, Option.map_eq_none_iff, List.find?_eq_none, Linked]
  simp only [decide_eq_true_eq, not_exists, not_and]

theorem SinglyLinked.linkQuality?_eq_some_iff (ht : t.SinglyLinked) :
    t.linkQuality? i j = some q ↔ ⟨j, q⟩ ∈ t.children i := by
  rw [linkQuality?, Option.map_eq_some_iff]
  constructor
  · rintro ⟨⟨target, q⟩, he, rfl⟩
    obtain rfl : target = j := by simpa using List.find?_some he
    exact List.mem_of_find?_eq_some he
  · intro hmem
    obtain ⟨e, he⟩ : ∃ e, (t.children i).find? (·.target = j) = some e :=
      Option.isSome_iff_exists.1 (List.find?_isSome.2 ⟨_, hmem, decide_eq_true rfl⟩)
    -- No other link leads there.
    have htarget : e.target = j := by simpa using List.find?_some he
    obtain rfl := List.inj_on_of_nodup_map (ht i) (List.mem_of_find?_eq_some he) hmem htarget
    exact ⟨_, he, rfl⟩

theorem qualities?_eq_none_iff : t.qualities? path = none ↔ ¬path.IsChain t.Linked := by
  induction path with
  | nil => simp [qualities?]
  | cons i path ih =>
    cases path with
    | nil => simp [qualities?]
    | cons j path =>
      rw [List.isChain_cons_cons, not_and_or, ← ih, ← linkQuality?_eq_none_iff, qualities?]
      cases t.linkQuality? i j <;> simp

theorem not_takes_singleton : ¬t.Takes [i] q := by
  rintro ⟨j, e, -, hinfix, -⟩
  exact absurd hinfix.length_le (by simp)

theorem takes_cons_cons :
    t.Takes (i :: j :: path) q ↔ ⟨j, q⟩ ∈ t.children i ∨ t.Takes (j :: path) q := by
  simp only [Takes, List.infix_cons_iff (a := i), List.cons_prefix_cons, List.nil_prefix, and_true]
  constructor
  · rintro ⟨_, e, he, ⟨rfl, rfl⟩ | hinfix, rfl⟩
    · exact .inl he
    · exact .inr ⟨_, e, he, hinfix, rfl⟩
  · rintro (he | ⟨_, e, he, hinfix, rfl⟩)
    · exact ⟨i, _, he, .inl ⟨rfl, rfl⟩, rfl⟩
    · exact ⟨_, e, he, .inr hinfix, rfl⟩

/-- Where no two links lead to the same child, a path takes what its nodes tell. -/
theorem SinglyLinked.mem_qualities?_iff (ht : t.SinglyLinked) {qs : List Quality}
    (h : t.qualities? path = some qs) : q ∈ qs ↔ t.Takes path q := by
  induction path generalizing qs with
  | nil =>
    obtain rfl := Option.some.inj h
    simp [Takes]
  | cons i path ih =>
    cases path with
    | nil =>
      obtain rfl := Option.some.inj h
      simp [not_takes_singleton]
    | cons j path =>
      obtain ⟨q', hq', h⟩ := Option.bind_eq_some_iff.1 h
      obtain ⟨qs, hqs, rfl⟩ := Option.map_eq_some_iff.1 h
      rw [List.mem_cons, ih hqs, takes_cons_cons, ← ht.linkQuality?_eq_some_iff, hq',
        Option.some.injEq, eq_comm]

theorem SinglyLinked.pathQuality?_eq_none_iff (ht : t.SinglyLinked) :
    t.pathQuality? path = none ↔
      ¬path.IsChain t.Linked ∨ t.Takes path .overApprox ∧ t.Takes path .underApprox := by
  rw [← qualities?_eq_none_iff, pathQuality?_eq]
  cases hqs : t.qualities? path with
  | none => simp
  | some qs =>
    rw [Option.bind_some, Quality.joint_eq_none_iff, ht.mem_qualities?_iff hqs,
      ht.mem_qualities?_iff hqs]
    simp

theorem SinglyLinked.weakest (ht : t.SinglyLinked) (h : t.pathQuality? path = some q) :
    (q = .overApprox ↔ t.Takes path .overApprox) ∧
      (q = .underApprox ↔ t.Takes path .underApprox) := by
  rw [pathQuality?_eq] at h
  obtain ⟨qs, hqs, hq⟩ := Option.bind_eq_some_iff.1 h
  rw [← ht.mem_qualities?_iff hqs, ← ht.mem_qualities?_iff hqs]
  exact Quality.joint_eq_some_iff.1 hq

/-- What is known of the quality of a path. -/
structure Qualified (t : Tree) (path : List NodeId) : Prop where
  eq_none_iff : t.pathQuality? path = none ↔
    ¬path.IsChain t.Linked ∨ t.Takes path .overApprox ∧ t.Takes path .underApprox
  eq_over_iff : ∀ q, t.pathQuality? path = some q → (q = .overApprox ↔ t.Takes path .overApprox)
  eq_under_iff : ∀ q, t.pathQuality? path = some q → (q = .underApprox ↔ t.Takes path .underApprox)
  eq_exact_iff : ∀ q, t.pathQuality? path = some q →
    (q = .exact ↔ ¬t.Takes path .overApprox ∧ ¬t.Takes path .underApprox)
  /-- It does not matter where the path is split. -/
  split : ∀ front id back, path = front ++ id :: back → t.pathQuality? path =
    (t.pathQuality? (front ++ [id])).bind fun q => (t.pathQuality? (id :: back)).bind q.compose

theorem SinglyLinked.qualified (ht : t.SinglyLinked) (path : List NodeId) : t.Qualified path where
  eq_none_iff := ht.pathQuality?_eq_none_iff
  eq_over_iff _ h := (ht.weakest h).1
  eq_under_iff _ h := (ht.weakest h).2
  eq_exact_iff q h := by
    rw [← (ht.weakest h).1, ← (ht.weakest h).2]
    cases q <;> decide
  split _ _ _ heq := heq ▸ pathQuality?_append

end Tree

end Lineage
