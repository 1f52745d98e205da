import Lineage.Proofs.Circuit.Evaluation
import Mathlib.Data.List.Induction

/-!
# Calls

A circuit is made by calls, and remembers of them what it needs: where an input
takes its value from is what the last call said that connected or fed it
(`source?_after`), whatever was called in between and whatever failed. There are
wires only from outputs and to inputs that the functions declare
(`Reachable.declared`).

A function that returns more or fewer outputs than it declares fails when it is
evaluated. So there is a value behind each wire, and an evaluation misses neither
an output nor a function, unless it was asked for one that there is not.
-/

namespace Lineage.Circuit

variable {c c' : Circuit} {input output pin : Pin} {source source' : Source} {v : Value}
  {f g target : FunctionId}

/-! ### Wires between pins that there are -/

/-- All wires come from outputs that functions declare. -/
def Declared (c : Circuit) : Prop :=
  ∀ input output, c.source? input = some (.wire output) → c.HasOutput output

theorem Declared.setSource (h : c.Declared)
    (hs : ∀ output, source = .wire output → c.HasOutput output) :
    (c.setSource input source).Declared := fun pin output hpin => by
  rw [source?_setSource] at hpin
  split at hpin
  · exact hs output (Option.some.inj hpin)
  · exact h pin output hpin

/-- The wires stay where all functions stay. -/
theorem Declared.congr (h : c.Declared) (hs : c'.sources = c.sources)
    (hf : ∀ (id : FunctionId) (i : Instance), c.instances[id]? = some i →
      ∃ i' : Instance, c'.instances[id]? = some i' ∧ i'.function = i.function) :
    c'.Declared := fun input output hsource => by
  rw [source?, hs] at hsource
  obtain ⟨i, hi, hn⟩ := h input output hsource
  obtain ⟨i', hi', heq⟩ := hf _ i hi
  exact ⟨i', hi', heq ▸ hn⟩

theorem Reachable.declared (h : c.Reachable) : c.Declared := by
  induction h with
  | empty => exact fun _ _ h => absurd h nofun
  | add _ f ih => exact ih.congr rfl fun _ _ => exists_instance_add f
  | connect _ hc ih =>
    obtain ⟨ho, -, rfl⟩ := connect_eq_ok_iff.1 hc
    exact ih.setSource fun output' h => Source.wire.inj h ▸ ho
  | feed _ hc ih =>
    obtain ⟨-, rfl⟩ := feed_eq_ok_iff.1 hc
    exact ih.setSource fun _ h => absurd h nofun
  | evaluate h target ih =>
    obtain ⟨r, p, -, heq, hp⟩ := exists_pull_eq h.wellWired target
    rw [heq]
    exact ih.congr hp.sources fun f i hi => hp.function_eq hi
  | duplicate _ preserve ih => exact ih.congr rfl fun _ _ => exists_instance_duplicate preserve

/-! ### Outputs behind the wires -/

/-- A function that does not fail returns as many outputs as it declares. -/
theorem length_of_settles {i : Instance} {outs : List Value} (hi : c.instances[f]? = some i)
    (h : Settles (c.plain · f) (.ok outs)) : outs.length = i.function.outArity := by
  obtain ⟨n, h⟩ := h
  have hrun : (c.plain (n + 1) f).run = some (.ok outs) := h (n + 1) (Nat.le_succ n)
  rw [plain_succ hi] at hrun
  obtain ⟨values, -, hrun⟩ := run_bind_ok hrun
  obtain ⟨⟨outs', i'⟩, he, hrun⟩ := run_bind_ok hrun
  have he : some (i.evaluate values) = some (.ok (outs', i')) := he
  obtain ⟨e, -, hlength, rfl, -⟩ := exists_evaluation (Option.some.inj he)
  exact Except.ok.inj (Option.some.inj hrun) ▸ hlength

/-- A function upstream of `target` is `target` or feeds another, and so it is there. -/
theorem Declared.eq_of_upstream (h : c.Declared) (hf : c.Upstream target f)
    (hnone : c.instances[f]? = none) : f = target := by
  rcases Relation.ReflTransGen.cases_tail hf with heq | ⟨g, -, n, m, hs⟩
  · exact heq
  · obtain ⟨i, hi, -⟩ := h _ _ hs
    exact absurd (hnone.symm.trans hi) nofun

/-- A function that is not there needs no other, let alone itself. -/
theorem WellWired.acyclic_of_none (h : c.WellWired) (hnone : c.instances[f]? = none) :
    c.Acyclic f := by
  have hneeds (g : FunctionId) : ¬c.Needs f g := fun ⟨n, m, hs⟩ => by
    obtain ⟨i, hi, -⟩ := h _ _ hs
    exact absurd (hnone.symm.trans hi) nofun
  intro g hg hcycle
  obtain rfl | ⟨g', hg', -⟩ := Relation.ReflTransGen.cases_head hg
  · obtain ⟨g', hg', -⟩ := Relation.TransGen.head'_iff.1 hcycle
    exact hneeds g' hg'
  · exact hneeds g' hg'

/-- No wire leads to a missing output. -/
theorem Reachable.ne_producedNoOutput (h : c.Reachable) (target f : FunctionId) (n : Nat) :
    (c.evaluate target).1 ≠ .error (.wiring (.producedNoOutput f n)) := fun he => by
  obtain ⟨r, p, -, heq, hp⟩ := exists_pull_eq h.wellWired target
  rw [heq] at he
  obtain ⟨g, -, -, hfault⟩ := hp.fault _ he
  cases hfault with
  | producedNoOutput hi hn hs ho hnone =>
    obtain ⟨i, hi, hlt⟩ := h.declared _ _ hs
    rw [List.getElem?_eq_none_iff, length_of_settles hi ho] at hnone
    exact absurd hlt (Nat.not_lt.2 hnone)
  | evaluation hi hd he => exact Instance.noWiring_evaluate _ _ _ he

/-- The only function that may turn out not to be there is the one to be evaluated. -/
theorem Reachable.unknownFunction_iff (h : c.Reachable) :
    (c.evaluate target).1 = .error (.wiring (.unknownFunction f)) ↔
      f = target ∧ c.size ≤ target := by
  constructor
  · intro he
    obtain ⟨r, p, -, heq, hp⟩ := exists_pull_eq h.wellWired target
    rw [heq] at he
    obtain ⟨g, hg, -, hfault⟩ := hp.fault _ he
    cases hfault with
    | unknown hnone =>
      obtain rfl := h.declared.eq_of_upstream hg hnone
      exact ⟨rfl, Array.getElem?_eq_none_iff.1 hnone⟩
    | evaluation hi hd he => exact absurd he (Instance.noWiring_evaluate _ _ _)
  · rintro ⟨rfl, hle⟩
    have hnone : c.instances[f]? = none := Array.getElem?_eq_none hle
    obtain ⟨r, p, -, heq, hp⟩ := exists_pull_eq h.wellWired f
    rw [heq]
    exact (hp.settles (h.wellWired.acyclic_of_none hnone)).unique (plain_unknown hnone)

/-! ### Calls -/

/-- A call of an operation. -/
inductive Call where
  | add (f : Function)
  | connect (output input : Pin)
  | feed (input : Pin) (v : Value)
  | evaluate (target : FunctionId)
  | duplicate (preserve : Bool)

/-- The circuit after a call: the copy, if it is duplicated, and the same circuit if it could not
    be connected or fed. -/
def Call.run (c : Circuit) : Call → Circuit
  | add f => (c.add f).1
  | connect output input => (c.connect output input).toOption.getD c
  | feed input v => (c.feed input v).toOption.getD c
  | evaluate target => (c.evaluate target).2
  | duplicate preserve => c.duplicate preserve

/-- The circuit after calls, of which the first is of an empty circuit. -/
def after (calls : List Call) : Circuit := calls.foldl Call.run empty

/-- The call succeeds in connecting or feeding the pin. -/
inductive Call.Sets (c : Circuit) : Call → Pin → Source → Prop where
  | connect {output input : Pin} {c' : Circuit} (h : c.connect output input = .ok c') :
    Sets c (.connect output input) input (.wire output)
  | feed {input : Pin} {v : Value} {c' : Circuit} (h : c.feed input v = .ok c') :
    Sets c (.feed input v) input (.fed v)

/-- The call of this number connects or feeds the pin. -/
def SetAt (calls : List Call) (n : Nat) (pin : Pin) (source : Source) : Prop :=
  ∃ call, calls[n]? = some call ∧ call.Sets (after (calls.take n)) pin source

/-- Of the calls that connect or feed the pin, this is what the last one says. -/
def LastSet (calls : List Call) (pin : Pin) (source : Source) : Prop :=
  ∃ n, SetAt calls n pin source ∧ ∀ m > n, ∀ source', ¬SetAt calls m pin source'

variable {call : Call} {calls : List Call}

theorem Call.run_of_connect (h : c.connect output input = .ok c') :
    (Call.connect output input).run c = c' := by
  rw [run, h]
  rfl

theorem Call.run_of_feed (h : c.feed input v = .ok c') : (Call.feed input v).run c = c' := by
  rw [run, h]
  rfl

/-- Connecting that fails changes nothing. -/
theorem Call.run_of_connect_error {e : Error} (h : c.connect output input = .error e) :
    (Call.connect output input).run c = c := by
  rw [run, h]
  rfl

/-- Feeding that fails changes nothing. -/
theorem Call.run_of_feed_error {e : Error} (h : c.feed input v = .error e) :
    (Call.feed input v).run c = c := by
  rw [run, h]
  rfl

theorem after_append : after (calls ++ [call]) = call.run (after calls) := by
  rw [after, List.foldl_append]
  rfl

theorem Reachable.run (h : c.Reachable) (call : Call) : (call.run c).Reachable := by
  cases call with
  | add f => exact h.add f
  | connect output input =>
    cases hc : c.connect output input with
    | ok c' => exact Call.run_of_connect hc ▸ h.connect hc
    | error e => exact (Call.run_of_connect_error hc).symm ▸ h
  | feed input v =>
    cases hc : c.feed input v with
    | ok c' => exact Call.run_of_feed hc ▸ h.feed hc
    | error e => exact (Call.run_of_feed_error hc).symm ▸ h
  | evaluate target => exact h.evaluate target
  | duplicate preserve => exact h.duplicate preserve

theorem reachable_after (calls : List Call) : (after calls).Reachable := by
  induction calls using List.reverseRecOn with
  | nil => exact .empty
  | append_singleton calls call ih => exact after_append ▸ ih.run call

/-- All circuits that can be made are made by calls. -/
theorem Reachable.exists_after (h : c.Reachable) : ∃ calls, after calls = c := by
  induction h with
  | empty => exact ⟨[], rfl⟩
  | add _ f ih =>
    obtain ⟨calls, rfl⟩ := ih
    exact ⟨calls ++ [.add f], after_append⟩
  | connect _ hc ih =>
    obtain ⟨calls, rfl⟩ := ih
    exact ⟨calls ++ [.connect _ _], after_append.trans (Call.run_of_connect hc)⟩
  | feed _ hc ih =>
    obtain ⟨calls, rfl⟩ := ih
    exact ⟨calls ++ [.feed _ _], after_append.trans (Call.run_of_feed hc)⟩
  | evaluate _ target ih =>
    obtain ⟨calls, rfl⟩ := ih
    exact ⟨calls ++ [.evaluate target], after_append⟩
  | duplicate _ preserve ih =>
    obtain ⟨calls, rfl⟩ := ih
    exact ⟨calls ++ [.duplicate preserve], after_append⟩

/-! ### What was called last -/

theorem Call.Sets.unique (h : call.Sets c pin source) (h' : call.Sets c pin source') :
    source = source' := by
  cases h <;> cases h' <;> rfl

/-- A call that connects or feeds the pin does no more than that. -/
theorem Call.Sets.run_eq (h : call.Sets c pin source) : call.run c = c.setSource pin source := by
  cases h with
  | connect h =>
    obtain ⟨-, -, rfl⟩ := connect_eq_ok_iff.1 h
    exact run_of_connect h
  | feed h =>
    obtain ⟨-, rfl⟩ := feed_eq_ok_iff.1 h
    exact run_of_feed h

/-- A call that neither connects nor feeds a pin leaves all wires and fed values. -/
theorem Reachable.sources_run (h : c.Reachable)
    (hsets : ∀ input source, ¬call.Sets c input source) : (call.run c).sources = c.sources := by
  cases call with
  | add f => rfl
  | connect output input =>
    cases hc : c.connect output input with
    | ok c' => exact absurd (.connect hc) (hsets _ _)
    | error e => rw [Call.run_of_connect_error hc]
  | feed input v =>
    cases hc : c.feed input v with
    | ok c' => exact absurd (.feed hc) (hsets _ _)
    | error e => rw [Call.run_of_feed_error hc]
  | evaluate target =>
    -- An evaluation changes witnesses alone, also one that fails.
    obtain ⟨r, p, -, heq, hp⟩ := exists_pull_eq h.wellWired target
    rw [Call.run, heq, hp.sources]
  | duplicate preserve => rfl

/-- A pin that is neither connected nor fed takes its value from where it took it before. -/
theorem Reachable.source?_run (h : c.Reachable) (hsets : ∀ source, ¬call.Sets c pin source) :
    (call.run c).source? pin = c.source? pin := by
  by_cases hother : ∃ input source, call.Sets c input source
  · obtain ⟨input, source, hother⟩ := hother
    have hne : pin ≠ input := by
      rintro rfl
      exact hsets _ hother
    rw [hother.run_eq, source?_setSource, if_neg hne]
  · simp only [not_exists] at hother
    rw [source?, h.sources_run hother, source?]

theorem SetAt.lt {n : Nat} (h : SetAt calls n pin source) : n < calls.length := by
  obtain ⟨_, h, -⟩ := h
  exact (List.getElem?_eq_some_iff.1 h).1

theorem setAt_append {n : Nat} : SetAt (calls ++ [call]) n pin source ↔
    SetAt calls n pin source ∨ n = calls.length ∧ call.Sets (after calls) pin source := by
  rcases Nat.lt_trichotomy n calls.length with hlt | rfl | hgt
  · rw [SetAt, List.take_append_of_le_length (Nat.le_of_lt hlt), List.getElem?_append_left hlt,
      ← SetAt]
    exact ⟨.inl, fun h => h.resolve_right fun ⟨he, _⟩ => absurd he (Nat.ne_of_lt hlt)⟩
  · have hnot : ¬SetAt calls calls.length pin source := fun ⟨_, h, _⟩ =>
      absurd (List.getElem?_eq_none (Nat.le_refl _) ▸ h) nofun
    rw [SetAt, List.take_left]
    simp [hnot]
  · refine iff_of_false (fun h => ?_) (not_or.2 ⟨fun h => ?_, fun ⟨he, _⟩ => ?_⟩)
    · have := h.lt
      rw [List.length_append, List.length_singleton] at this
      exact absurd hgt (by omega)
    · exact absurd h.lt (Nat.lt_asymm hgt)
    · exact absurd he (Nat.ne_of_gt hgt)

/-- A call that connects or feeds the pin is the last one. -/
theorem lastSet_append_of_sets (h : call.Sets (after calls) pin source) :
    LastSet (calls ++ [call]) pin source' ↔ source = source' := by
  constructor
  · rintro ⟨n, hn, hlast⟩
    rcases setAt_append.1 hn with hn | ⟨-, h'⟩
    · exact absurd (setAt_append.2 (.inr ⟨rfl, h⟩)) (hlast _ hn.lt _)
    · exact h.unique h'
  · rintro rfl
    refine ⟨calls.length, setAt_append.2 (.inr ⟨rfl, h⟩), fun m hm source' hset => ?_⟩
    have := hset.lt
    rw [List.length_append, List.length_singleton] at this
    exact absurd hm (by omega)

/-- Another call changes nothing about which one is the last. -/
theorem lastSet_append_of_not_sets (h : ∀ source, ¬call.Sets (after calls) pin source) :
    LastSet (calls ++ [call]) pin source ↔ LastSet calls pin source := by
  have hset (n : Nat) (source : Source) :
      SetAt (calls ++ [call]) n pin source ↔ SetAt calls n pin source :=
    setAt_append.trans (or_iff_left fun ⟨_, h'⟩ => h _ h')
  simp only [LastSet, hset]

/-- An input takes its value from where the last call said. -/
theorem source?_after (calls : List Call) (pin : Pin) (source : Source) :
    (after calls).source? pin = some source ↔ LastSet calls pin source := by
  induction calls using List.reverseRecOn with
  | nil => exact ⟨nofun, fun ⟨_, ⟨_, h, _⟩, _⟩ => absurd h nofun⟩
  | append_singleton calls call ih =>
    rw [after_append]
    -- The last call decides if it is about the pin and succeeds, and else changes nothing.
    by_cases hsets : ∃ source', call.Sets (after calls) pin source'
    · obtain ⟨source', hsets⟩ := hsets
      rw [hsets.run_eq, source?_setSource, if_pos rfl, lastSet_append_of_sets hsets,
        Option.some.injEq]
    · have hsets := not_exists.1 hsets
      rw [(reachable_after calls).source?_run hsets, lastSet_append_of_not_sets hsets, ih]

/-! ### Circuits that calls have made -/

/-- The circuit is as the calls left it. -/
structure MadeBy (calls : List Call) (c : Circuit) : Prop where
  /-- An input is connected if the last call that connected or fed it connected it. -/
  wires : ∀ pin output,
    c.sources.wires.lookup pin = some output ↔ LastSet calls pin (.wire output)
  /-- An input is fed if the last call that connected or fed it fed it. -/
  fed : ∀ pin v, c.sources.fed.lookup pin = some v ↔ LastSet calls pin (.fed v)
  /-- No input is both connected and fed. -/
  exclusive : ∀ pin, c.sources.wires.lookup pin = none ∨ c.sources.fed.lookup pin = none
  /-- Wires join outputs and inputs that functions declare. -/
  joins : ∀ input output, c.sources.wires.lookup input = some output →
    c.HasOutput output ∧ c.HasInput input
  /-- Connecting fails for want of a pin, and then nothing changes. -/
  connect : ∀ output input e, c.connect output input = .error e →
    ¬(c.HasOutput output ∧ c.HasInput input) ∧ (Call.connect output input).run c = c
  /-- Feeding fails for want of a pin, and then nothing changes. -/
  feed : ∀ input v e, c.feed input v = .error e →
    ¬c.HasInput input ∧ (Call.feed input v).run c = c
  /-- No evaluation misses an output. -/
  produces : ∀ target f n, (c.evaluate target).1 ≠ .error (.wiring (.producedNoOutput f n))
  /-- No evaluation misses a function, except the one to be evaluated. -/
  knows : ∀ target f, (c.evaluate target).1 = .error (.wiring (.unknownFunction f)) ↔
    f = target ∧ c.size ≤ target

/-- Whatever has been called, and whatever failed, the circuit is as the calls left it. -/
theorem madeBy_after (calls : List Call) : MadeBy calls (after calls) where
  wires pin output := feeder?_eq_some_iff.trans (source?_after calls pin _)
  fed pin v := lookup_fed_eq_some_iff.trans (source?_after calls pin _)
  exclusive := (after calls).sources.exclusive
  joins input output h :=
    have hsource := source?_of_feeder? h
    ⟨(reachable_after calls).declared _ _ hsource, (reachable_after calls).wellWired _ _ hsource⟩
  connect output input e h := by
    refine ⟨fun ⟨ho, hi⟩ => ?_, Call.run_of_connect_error h⟩
    exact absurd (h.symm.trans (connect_eq_ok_iff.2 ⟨ho, hi, rfl⟩)) nofun
  feed input v e h := by
    refine ⟨fun hi => ?_, Call.run_of_feed_error h⟩
    exact absurd (h.symm.trans (feed_eq_ok_iff.2 ⟨hi, rfl⟩)) nofun
  produces := (reachable_after calls).ne_producedNoOutput
  knows _ _ := (reachable_after calls).unknownFunction_iff

/-- A sum of two, of which an output that is never produced is the first summand
    until it is fed. -/
def refed : List Call :=
  [.add (.stub 0 2 []), .add (.nary .add 2), .connect ⟨0, 1⟩ ⟨1, 0⟩, .connect ⟨0, 2⟩ ⟨1, 0⟩,
    .feed ⟨1, 1⟩ (.int 4), .evaluate 1, .feed ⟨1, 0⟩ (.int 1), .feed ⟨1, 2⟩ (.int 9), .evaluate 1]

/-- There is no third output to connect, and the second is connected but not
    missed: its function fails for it. After the pin is fed there is a sum, and a
    pin that there is not has not been fed. -/
theorem madeBy_refed : MadeBy refed (after refed) ∧
    (Call.connect ⟨0, 2⟩ ⟨1, 0⟩).run (after (refed.take 3)) = after (refed.take 3) ∧
    (after (refed.take 4)).sources.wires.lookup ⟨1, 0⟩ = some ⟨0, 1⟩ ∧
    ((after (refed.take 5)).evaluate 1).1 = .error (.arity "stub" 2 0) ∧
    LastSet refed ⟨1, 0⟩ (.fed (.int 1)) ∧ (∀ output, ¬LastSet refed ⟨1, 0⟩ (.wire output)) ∧
    (∀ source, ¬LastSet refed ⟨1, 2⟩ source) ∧
    ((after (refed.take 8)).evaluate 1).1 = .ok [.int 5] := by
  have hmade : MadeBy refed (after refed) := madeBy_after refed
  have hfailed : (after (refed.take 3)).connect ⟨0, 2⟩ ⟨1, 0⟩ =
      .error (.wiring (.noOutput 0 2 2)) := rfl
  refine ⟨hmade, ((madeBy_after (refed.take 3)).connect _ _ _ hfailed).2, rfl, by rfl,
    (hmade.fed _ _).1 rfl, fun output h => ?_, fun source h => ?_, by rfl⟩
  · exact absurd ((hmade.wires _ _).2 h) nofun
  · cases source with
    | wire output => exact absurd ((hmade.wires _ _).2 h) nofun
    | fed v => exact absurd ((hmade.fed _ _).2 h) nofun

end Lineage.Circuit
