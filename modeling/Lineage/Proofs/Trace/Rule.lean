import Lineage.Tracer
import Lineage.Proofs.Outline.Answer

/-!
# The rule of explanation

What explains a part of a function depends on the part alone: of an output, the
outline that the witness of the function attaches; of an input, an exact link to
the output that feeds it; of anything else, and of a function without a witness
or an input that nothing feeds, nothing.

* `Wiring.rule` is what explains a part, `explain_eq` that a trace attaches just
  that;
* `Wiring.Leads` relates a part to those that it is explained by, and
  `Wiring.Met` to all that a trace may meet below it.
-/

namespace Lineage

/-- What explains a part: an outline, and the function whose parts it names. -/
def Wiring.rule (w : Wiring) (query : Query) (key : ObjectKey) : Option (FunctionId × Outline) :=
  match key.designator.head with
  | .output _ => (w.witness key.subject).map fun witness =>
    (key.subject, witness.outline query key.designator.rest)
  | .input n => (w.feeder ⟨key.subject, n⟩).map fun output =>
    (output.function,
      .link .exact (Designator.nest [.output output.number] key.designator.rest))
  | _ => none

variable {w : Wiring} {query : Query} {key key' : ObjectKey} {k k' : Keeper} {node id : NodeId}
  {subject : FunctionId} {o : Outline}

theorem rule_of_output {n : Nat} (h : key.designator.head = .output n) :
    w.rule query key = (w.witness key.subject).map fun witness =>
      (key.subject, witness.outline query key.designator.rest) := by
  rw [Wiring.rule, h]

theorem rule_of_input {n : Nat} (h : key.designator.head = .input n) :
    w.rule query key = (w.feeder ⟨key.subject, n⟩).map fun output => (output.function,
      .link .exact (Designator.nest [.output output.number] key.designator.rest)) := by
  rw [Wiring.rule, h]

/-- Only pins are explained. -/
theorem rule_of_other (ho : ∀ n, key.designator.head ≠ .output n)
    (hi : ∀ n, key.designator.head ≠ .input n) : w.rule query key = none := by
  rw [Wiring.rule]
  split
  · next n h => exact absurd h (ho n)
  · next n h => exact absurd h (hi n)
  · rfl

/-- An OR node that explains a part joins at least one. -/
theorem rule_ne_or_nil : w.rule query key ≠ some (subject, .junction .or []) := by
  rw [Wiring.rule]
  intro h
  split at h
  · obtain ⟨witness, -, heq⟩ := Option.map_eq_some_iff.1 h
    exact Witness.outline_ne_or_nil _ witness (Prod.mk.inj heq).2
  · obtain ⟨output, -, heq⟩ := Option.map_eq_some_iff.1 h
    exact absurd (Prod.mk.inj heq).2 nofun
  · exact absurd h nofun

/-- A part is explained by another, among others. -/
def Wiring.Leads (w : Wiring) (query : Query) (key key' : ObjectKey) : Prop :=
  ∃ subject o, w.rule query key = some (subject, o) ∧
    ∃ d ∈ o.parts, key' = ⟨d, subject⟩

/-- An output is explained by what its witness names, and an input by the output
    that feeds it. -/
theorem Wiring.Leads.cases (h : w.Leads query key key') :
    (∃ n witness, key.designator.head = .output n ∧ w.witness key.subject = some witness ∧
      key'.designator ∈ (witness.outline query key.designator.rest).parts ∧
      key'.subject = key.subject) ∨
    ∃ n output, key.designator.head = .input n ∧ w.feeder ⟨key.subject, n⟩ = some output ∧
      key' = ⟨Designator.nest [.output output.number] key.designator.rest, output.function⟩ := by
  obtain ⟨subject, o, hr, d, hd, rfl⟩ := h
  rw [Wiring.rule] at hr
  split at hr
  · next n ho =>
    obtain ⟨witness, hw, heq⟩ := Option.map_eq_some_iff.1 hr
    obtain ⟨rfl, rfl⟩ := Prod.mk.inj heq
    exact .inl ⟨n, witness, ho, hw, hd, rfl⟩
  · next n hi =>
    obtain ⟨output, ho, heq⟩ := Option.map_eq_some_iff.1 hr
    obtain ⟨rfl, rfl⟩ := Prod.mk.inj heq
    obtain rfl := List.mem_singleton.1 hd
    exact .inr ⟨n, output, hi, ho, rfl⟩
  · exact absurd hr nofun

/-- A part that an answer names explains the output. -/
theorem Wiring.leads_of_output {n : Nat} {witness : Witness} {d : Designator}
    (hn : key.designator.head = .output n) (hw : w.witness key.subject = some witness)
    (hd : d ∈ (witness.outline query key.designator.rest).parts) :
    w.Leads query key ⟨d, key.subject⟩ :=
  ⟨_, _, by rw [rule_of_output hn, hw, Option.map_some], d, hd, rfl⟩

/-- The output that feeds an input explains it. -/
theorem Wiring.leads_of_input {n : Nat} {output : Pin} (hn : key.designator.head = .input n)
    (ho : w.feeder ⟨key.subject, n⟩ = some output) : w.Leads query key
      ⟨Designator.nest [.output output.number] key.designator.rest, output.function⟩ :=
  ⟨_, _, by rw [rule_of_input hn, ho, Option.map_some], _, List.mem_cons_self, rfl⟩

/-- A trace of a part may meet another. -/
def Wiring.Met (w : Wiring) (query : Query) : ObjectKey → ObjectKey → Prop :=
  Relation.ReflTransGen (w.Leads query)

namespace Tracer

/-- A trace attaches what the rule says. -/
theorem explain_eq (hk : k.kind? node = some (.object key)) : explain w query node k =
    match w.rule query key with
    | some (subject, o) => o.attachTo subject node k
    | none => (k, []) := by
  rw [explain, Keeper.object?_eq_some_iff.2 hk, Wiring.rule]
  dsimp only
  cases key.designator.head with
  | output _ =>
    dsimp only
    cases w.witness key.subject with
    | none => rfl
    | some witness => exact witness.answer_eq (Keeper.lt_size_of_kind? hk) _
  | input n =>
    dsimp only
    cases w.feeder ⟨key.subject, n⟩ <;> rfl
  | _ => rfl

theorem explain_of_rule (hk : k.kind? node = some (.object key))
    (hr : w.rule query key = some (subject, o)) :
    explain w query node k = o.attachTo subject node k := by
  rw [explain_eq hk, hr]

theorem explain_of_no_rule (hk : k.kind? node = some (.object key))
    (hr : w.rule query key = none) : explain w query node k = (k, []) := by
  rw [explain_eq hk, hr]

end Tracer

/-! ### Nodes that are explained -/

namespace Keeper

/-- Below a node, the keeper holds what explains it, and nothing else. -/
def Obeys (k : Keeper) (node : NodeId) : Option (FunctionId × Outline) → Prop
  | some (subject, o) => k.Shows subject node o
  | none => k.children node = []

theorem Shows.frame (h : k.Shows subject id o) (hle : k ≤ k') (hid : id < k.size)
    (hne : id ≠ node) (hnode : k.kind? node = some (.object key))
    (hframe : ∀ id < k.size, id ≠ node → k'.children id = k.children id) :
    k'.Shows subject id o := by
  cases o with
  | link quality d =>
    obtain ⟨child, hc, hk⟩ := h
    exact ⟨child, by rw [hframe id hid hne, hc], hle _ _ hk⟩
  | junction j ds =>
    obtain ⟨middle, hc, hk, hs⟩ := h
    have hmiddle : middle ≠ node := fun he => by
      rw [he, hnode] at hk
      exact j.kind_ne_object _ (Option.some.inj hk).symm
    exact ⟨middle, by rw [hframe id hid hne, hc], hle _ _ hk,
      hs.mono hle (hframe middle (lt_size_of_kind? hk) hmiddle)⟩

/-- What is below one node is left as it is when another is explained. -/
theorem Obeys.frame {r : Option (FunctionId × Outline)} (h : k.Obeys id r) (hle : k ≤ k')
    (hid : id < k.size) (hne : id ≠ node) (hnode : k.kind? node = some (.object key))
    (hframe : ∀ id < k.size, id ≠ node → k'.children id = k.children id) : k'.Obeys id r := by
  cases r with
  | none => exact (hframe id hid hne).trans h
  | some r => exact Shows.frame h hle hid hne hnode hframe

end Keeper

end Lineage
