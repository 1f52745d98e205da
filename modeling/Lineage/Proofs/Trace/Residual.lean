import Lineage.Proofs.Function.Evaluation
import Lineage.Proofs.Function.Match
import Lineage.Proofs.Outline.Residual
import Lineage.Proofs.Trace.Fuel

/-!
# Cycles without quantifiers

Where no quantifier has been evaluated, what a trace meets stays within bounds that
are known when it starts: what is behind the pin stays as it is asked about
(`stays_of_met`), and the pins are those of finitely many functions. So however the
functions are wired, and around whatever cycles, finitely many parts can be met,
and every trace ends (`exists_tree_stays`).
-/

namespace Lineage

/-! ### Functions without quantifiers -/

/-- The function is no quantifier, nor is a template in it. -/
inductive Function.Unquantified : Function → Prop where
  | nary (op : Operator) (arity : Nat) : Unquantified (nary op arity)
  | find (pattern : Pattern) : Unquantified (find pattern)
  | fork (arity : Nat) : Unquantified (fork arity)
  | applyToAll {template : Function} (h : Unquantified template) :
    Unquantified (applyToAll template)

/-- Such a function leaves no witness of a quantifier. -/
theorem Function.Unquantified.witness {f : Function} {inputs : List Value} {e : Evaluation}
    (hf : f.Unquantified) (h : f.evaluate inputs = .ok e) : e.witness.Unquantified := by
  induction hf generalizing inputs e with
  | nary op arity =>
    rw [evaluate] at h
    obtain ⟨-, -, h⟩ := exists_of_bind_ok h
    obtain ⟨output, -, h⟩ := exists_of_bind_ok h
    exact Except.ok.inj h ▸ .linkAll arity
  | find pattern =>
    rw [evaluate] at h
    obtain ⟨s, -, h⟩ := exists_of_bind_ok h
    split at h
    · next matched place _ => exact Except.ok.inj h ▸ .found place
    · exact Except.ok.inj h ▸ .linkAll 1
  | fork arity =>
    rw [evaluate.eq_def] at h
    dsimp only at h
    split at h
    · exact Except.ok.inj h ▸ .forked
    · cases h
  | applyToAll _ ih =>
    rw [evaluate] at h
    obtain ⟨list, -, h⟩ := exists_of_bind_ok h
    obtain ⟨evaluations, hevaluations, h⟩ := exists_of_bind_ok h
    obtain rfl := Except.ok.inj h
    refine .applied fun w hw => ?_
    obtain ⟨e, he, rfl⟩ := List.mem_map.1 hw
    obtain ⟨v, hv⟩ := exists_of_mem_mapM hevaluations he
    exact ih hv

namespace Wiring

variable {W : Wiring} {query : Query} {key key' : ObjectKey} {d : Designator} {root : FunctionId}
  {fs : List FunctionId} {low high : Int} {b b₀ n : Nat} {origin : List Part}

/-! ### Wirings of finitely many functions -/

/-- Only the functions `fs` are evaluated, or connected. -/
structure Over (W : Wiring) (fs : List FunctionId) : Prop where
  witness : ∀ f w, W.witness f = some w → f ∈ fs
  feeder : ∀ input output, W.feeder input = some output →
    input.function ∈ fs ∧ output.function ∈ fs

/-- No witness is of a quantifier. -/
def Unquantified (W : Wiring) : Prop := ∀ f w, W.witness f = some w → w.Unquantified

/-- The length of the longest text that a witness of the functions has recorded. -/
def longest (W : Wiring) (fs : List FunctionId) : Nat :=
  Witness.longestAmong (fs.filterMap W.witness)

theorem Over.longest_le (h : W.Over fs) {f : FunctionId} {w : Witness}
    (hw : W.witness f = some w) : w.longest ≤ W.longest fs :=
  Witness.longest_le_longestAmong (List.mem_filterMap.2 ⟨f, h.witness f w hw, hw⟩)

/-! ### What is behind the pins -/

/-- A wire carries along what is behind the pin, and a witness carries it along as far as it
    stays. -/
theorem Unquantified.stays_of_leads (hW : W.Unquantified) (h : W.Over fs) (hlow : low ≤ 0)
    (hhigh : 2 * W.longest fs ≤ high) (hkey : Stays low high origin key.designator.rest.parts)
    (hleads : W.Leads query key key') : Stays low high origin key'.designator.rest.parts := by
  obtain ⟨n, w, -, hw, hd, -⟩ | ⟨n, output, -, -, rfl⟩ := hleads.cases
  · have hle := h.longest_le hw
    exact (hW _ w hw).stays hlow (by omega) hkey hd
  · rwa [Designator.rest_nest_cons Part.output_ne_identity, Designator.nest_nil]

/-- Behind the pin, a part that is met stays as the part was that the trace started from. -/
theorem Unquantified.stays_of_met (hW : W.Unquantified) (h : W.Over fs)
    (hmet : W.Met query key key') :
    Stays key.designator.rest.leastStart (key.designator.rest.greatestStop (2 * W.longest fs))
      key.designator.rest.parts key'.designator.rest.parts := by
  induction hmet with
  | refl => exact stays_refl _ _
  | tail _ hleads ih =>
    exact hW.stays_of_leads h (Designator.leastStart_le_zero _) (Designator.le_greatestStop _ _) ih
      hleads

/-! ### Pins -/

/-- What explains a part is a part of a pin. -/
theorem Leads.exists_head (h : W.Leads query key key') :
    ∃ n, key'.designator.head = .input n ∨ key'.designator.head = .output n := by
  obtain ⟨_, w, -, -, hd, -⟩ | ⟨_, output, -, -, rfl⟩ := h.cases
  · obtain ⟨i, -, hhead⟩ := Witness.head_of_mem_outline hd
    exact ⟨i, .inl hhead⟩
  · exact ⟨_, .inr (Designator.head_nest_cons Part.output_ne_identity)⟩

/-- No function has more than `b₀` inputs, and its inputs up to `b₀` are fed by outputs up to
    `b`. -/
structure Numbered (W : Wiring) (b₀ b : Nat) : Prop where
  inArity_le : ∀ f w, W.witness f = some w → w.inArity ≤ b₀
  output_le : ∀ input output, W.feeder input = some output → input.number ≤ b₀ →
    output.number ≤ b

/-- Finitely many functions have such bounds, of which the first is as great as wanted. -/
theorem Over.exists_numbered (h : W.Over fs) (n : Nat) :
    ∃ b₀ b, W.Numbered b₀ b ∧ n ≤ b₀ ∧ b₀ ≤ b := by
  obtain ⟨b₁, h₁⟩ := exists_bound (P := fun b f => ∀ w, W.witness f = some w → w.inArity ≤ b)
    (fun _ _ _ h hf w hw => (hf w hw).trans h) fs fun f _ => by
      cases hw : W.witness f with
      | none => exact ⟨0, fun _ h => absurd h nofun⟩
      | some w => exact ⟨w.inArity, fun w' h => Option.some.inj h ▸ Nat.le_refl _⟩
  obtain ⟨b₂, h₂⟩ := exists_bound
    (P := fun b (input : Pin) => ∀ output, W.feeder input = some output → output.number ≤ b)
    (fun _ _ _ h hf output ho => (hf output ho).trans h)
    (fs.flatMap fun f => (List.range (max b₁ n + 1)).map (Pin.mk f)) fun input _ => by
      cases ho : W.feeder input with
      | none => exact ⟨0, fun _ h => absurd h nofun⟩
      | some output => exact ⟨output.number, fun _ h => Option.some.inj h ▸ Nat.le_refl _⟩
  refine ⟨max b₁ n, max b₂ (max b₁ n), ⟨fun f w hw => ?_, fun input output ho hle => ?_⟩,
    Nat.le_max_right _ _, Nat.le_max_right _ _⟩
  · exact (h₁ f (h.witness f w hw) w hw).trans (Nat.le_max_left _ _)
  · refine (h₂ input (List.mem_flatMap.2 ⟨_, (h.feeder input output ho).1, ?_⟩) output ho).trans
      (Nat.le_max_left _ _)
    exact List.mem_map.2 ⟨_, List.mem_range.2 (Nat.lt_succ_of_le hle), rfl⟩

/-- A part of a pin within these bounds, of one of the functions. -/
structure IsPin (fs : List FunctionId) (b₀ b : Nat) (key : ObjectKey) : Prop where
  subject : key.subject ∈ fs
  head : (∃ n ≤ b₀, key.designator.head = .input n) ∨ ∃ n ≤ b, key.designator.head = .output n

theorem IsPin.within_head (h : IsPin fs b₀ b key) (hle : b₀ ≤ b) :
    key.designator.head.Within b := by
  obtain ⟨-, ⟨n, hn, hhead⟩ | ⟨n, hn, hhead⟩⟩ := h
  · rw [hhead]
    exact hn.trans hle
  · rw [hhead]
    exact hn

theorem Numbered.isPin_of_leads (hn : W.Numbered b₀ b) (h : W.Over fs)
    (hkey : ∀ n, key.designator.head = .input n → n ≤ b₀) (hleads : W.Leads query key key') :
    IsPin fs b₀ b key' := by
  obtain ⟨_, w, -, hw, hd, hsubject⟩ | ⟨n, output, hi, ho, rfl⟩ := hleads.cases
  · obtain ⟨i, hi, hhead⟩ := Witness.head_of_mem_outline hd
    refine ⟨hsubject ▸ h.witness _ w hw, .inl ⟨i, ?_, hhead⟩⟩
    exact (Nat.le_of_lt hi).trans (hn.inArity_le _ w hw)
  · exact ⟨(h.feeder _ output ho).2, .inr ⟨_, hn.output_le _ output ho (hkey n hi),
      Designator.head_nest_cons Part.output_ne_identity⟩⟩

theorem Numbered.isPin_of_met (hn : W.Numbered b₀ b) (h : W.Over fs)
    (hkey : ∀ n, key.designator.head = .input n → n ≤ b₀) (hmet : W.Met query key key') :
    key' = key ∨ IsPin fs b₀ b key' := by
  induction hmet with
  | refl => exact .inl rfl
  | tail _ hleads ih =>
    refine .inr (hn.isPin_of_leads h (fun n hi => ?_) hleads)
    obtain rfl | ⟨-, ⟨m, hm, hhead⟩ | ⟨m, -, hhead⟩⟩ := ih
    · exact hkey n hi
    · exact Part.input.inj (hhead.symm.trans hi) ▸ hm
    · exact absurd (hhead.symm.trans hi) nofun

/-! ### Traces -/

/-- Without quantifiers, finitely many parts of finitely many functions can be met. -/
theorem Unquantified.finite_met (hW : W.Unquantified) (h : W.Over fs) (query : Query)
    (d : Designator) (root : FunctionId) : {key | W.Met query ⟨d, root⟩ key}.Finite := by
  obtain ⟨b₁, hd⟩ := d.exists_within
  obtain ⟨b₀, b, hn, hle, hb⟩ := h.exists_numbered
    (b₁ + d.rest.leastStart.natAbs + (d.rest.greatestStop (2 * W.longest fs)).natAbs)
  have hd₀ : d.Within b₀ := hd.mono (by omega)
  have hinput (n : Nat) (hi : d.head = .input n) : n ≤ b₀ := by
    have := hd₀.head
    rwa [hi] at this
  refine ((Designator.finite_within b (d.rest.length + 2)).image2 ObjectKey.mk
    (List.finite_toSet (root :: fs))).subset fun key hmet => ?_
  have hstays := hW.stays_of_met h hmet
  have hrest : key.designator.rest.Within b :=
    hstays.within (hd₀.mono hb).rest (by dsimp only; omega) (by dsimp only; omega)
  have hlength : key.designator.length ≤ d.rest.length + 2 :=
    key.designator.length_le_rest.trans (Nat.succ_le_succ hstays.length_le)
  rcases hn.isPin_of_met h hinput hmet with rfl | hpin
  · exact ⟨d, ⟨hd₀.mono hb, hlength⟩, root, List.mem_cons_self, rfl⟩
  · exact ⟨key.designator, ⟨Designator.within_of_rest (hpin.within_head hb) hrest, hlength⟩,
      key.subject, List.mem_cons_of_mem _ hpin.subject, rfl⟩

/-- However finitely many functions are wired of which no quantifier has been evaluated, finitely
    many parts can be met, and all traces end. Behind its pin, each part in the tree is as the part
    that was asked about, with other ranges, or cut short, or with one range more. -/
theorem exists_tree_stays (hW : W.Unquantified) (h : W.Over fs) (tracer : Tracer) (query : Query)
    (d : Designator) (root : FunctionId) : {key | W.Met query ⟨d, root⟩ key}.Finite ∧
      ∃ n t, (∀ fuel ≥ n, Tracer.tree? tracer fuel W query d root = some t) ∧
        ∀ id key, t.kind? id = some (.object key) →
          (key = ⟨d, root⟩ ∨
            ∃ n, key.designator.head = .input n ∨ key.designator.head = .output n) ∧
          Stays d.rest.leastStart (d.rest.greatestStop (2 * W.longest fs)) d.rest.parts
            key.designator.rest.parts := by
  have hfinite := hW.finite_met h query d root
  have hkeys (key) (hmet : W.Met query ⟨d, root⟩ key) : key ∈ hfinite.toFinset.toList :=
    Finset.mem_toList.2 (hfinite.mem_toFinset.2 hmet)
  obtain ⟨t, ht⟩ : ∃ t, ∀ fuel > hfinite.toFinset.toList.length,
      Tracer.tree? tracer fuel W query d root = some t := Tracer.exists_tree hkeys
  refine ⟨hfinite, _, t, ht, fun id key hk => ?_⟩
  -- The nodes of the tree are those of a run, which stand for parts that are met.
  obtain ⟨last, hrun, rfl, -⟩ := Tracer.exists_run (ht _ (Nat.lt_succ_self _))
  have hmet := (Tracer.grown_start.run hrun).met id key hk
  refine ⟨?_, hW.stays_of_met h hmet⟩
  rcases Relation.ReflTransGen.cases_tail hmet with heq | ⟨_, -, hleads⟩
  · exact .inl heq
  · exact .inr hleads.exists_head

end Wiring

/-- The characters `b` of each text of a list, found in those that were found before. -/
def spiral : Wiring where
  feeder input := if input = ⟨0, 0⟩ then some ⟨0, 0⟩ else none
  witness f := if f = 0 then some (.applied [.found ⟨1, 2, 3⟩]) else none

theorem find_abb : manyBs.find "abb" = ("bb", some ⟨1, 2, 3⟩) := by
  have hmatch : Pattern.Program.manyBs.search "abb".toList = some (1, 3) := by
    simp [Pattern.Program.manyBs, Pattern.Program.search, Pattern.Program.searchFrom,
      Pattern.Program.explore, Pattern.Program.fuel, Pattern.Program.number,
      Std.HashSet.contains_insert, contains_b]
  rw [Pattern.find, locate?_manyBs hmatch]
  decide

theorem spiral_over : spiral.Over [0] where
  witness f w h := by
    simp only [spiral] at h
    split at h
    · next hf => exact List.mem_singleton.2 hf
    · exact absurd h nofun
  feeder input output h := by
    simp only [spiral] at h
    split at h
    · next hi =>
      obtain rfl := hi
      obtain rfl := Option.some.inj h
      exact ⟨List.mem_singleton_self 0, List.mem_singleton_self 0⟩
    · exact absurd h nofun

theorem evaluate_spiral : (Function.applyToAll (.find manyBs)).evaluate [.list [.str "abb"]] =
    .ok ⟨[.list [.str "bb"]], .applied [.found ⟨1, 2, 3⟩]⟩ := by
  simp [Function.evaluate, Function.onlyInput, Operator.expect, Value.asList?, Value.asStr?,
    find_abb, bind, Except.bind, pure, Except.pure]

theorem spiral_unquantified : spiral.Unquantified := fun f w h => by
  simp only [spiral] at h
  split at h
  · exact Option.some.inj h ▸
      (Function.Unquantified.applyToAll (.find manyBs)).witness evaluate_spiral
  · exact absurd h nofun

/-- The characters of the first text are traced around the wire, past the end of the text, until
    they are too far off. -/
theorem exists_tree_spiral :
    (Function.applyToAll (.find manyBs)).evaluate [.list [.str "abb"]] =
        .ok ⟨[.list [.str "bb"]], .applied [.found ⟨1, 2, 3⟩]⟩ ∧
      spiral.longest [0] = 3 ∧
      ∃ n t, (∀ fuel ≥ n,
          Tracer.tree? {} fuel spiral .provenance (.compose [.output 0, .element 0]) 0 = some t) ∧
        ∀ id key, t.kind? id = some (.object key) →
          Stays 0 6 [.element 0] key.designator.rest.parts := by
  obtain ⟨-, n, t, ht, hstays⟩ := Wiring.exists_tree_stays spiral_unquantified spiral_over {}
    .provenance (.compose [.output 0, .element 0]) 0
  exact ⟨evaluate_spiral, by decide, n, t, ht, fun id key hk => (hstays id key hk).2⟩

end Lineage
