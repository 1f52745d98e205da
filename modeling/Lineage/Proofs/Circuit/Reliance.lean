import Lineage.Proofs.Circuit.History

/-!
# What outputs rely on

The explanation of an output misses no input, empty lists apart. A value that is
fed to a pin that no leaf names can be replaced by another, and the output remains
what it was (`outputs_eq_of_feedAll`): a function that a trace meets is explained by
all its inputs or by none, since witnesses are fine about elements and characters,
not about pins (`exists_head_of_lt`).

Explained by none is a quantifier over an empty list. The AND node for it joins
nothing, so that nothing below says what the list was made from. Other values there
may make another list, and its output another (`vacuous_not_names`). So such a
function has to give the same outputs again.
-/

namespace Lineage

namespace Witness

variable {query : Query} {d : Designator} {w : Witness}

/-- What is explained by some inputs of a function is explained by all. -/
theorem exists_head_of_lt {i : Nat} (h : (w.outline query d).parts ≠ []) (hi : i < w.inArity) :
    ∃ d' ∈ (w.outline query d).parts, d'.head = .input i := by
  obtain ⟨d', hd'⟩ := List.exists_mem_of_ne_nil _ h
  have hsingle (hw : w.inArity = 1) :
      ∃ d' ∈ (w.outline query d).parts, d'.head = .input i := by
    obtain ⟨j, hj, hhead⟩ := head_of_mem_outline hd'
    obtain rfl : j = i := by omega
    exact ⟨d', hd', hhead⟩
  cases w with
  | linkAll arity =>
    rw [outline]
    exact ⟨_, mem_allInputs_iff.2 ⟨i, hi, rfl⟩,
      Designator.head_compose_cons Part.input_ne_identity⟩
  | forked => exact hsingle rfl
  | quantified length positions => exact hsingle rfl
  | found place => exact hsingle rfl
  | applied elements => exact hsingle rfl

/-- An outline without parts is an AND of nothing. -/
theorem outline_eq_of_parts (h : (w.outline query d).parts = []) :
    w.outline query d = .junction .and [] := by
  have hor : w.outline query d ≠ .junction .or [] := outline_ne_or_nil d w
  cases ho : w.outline query d with
  | link quality d => simp [ho, Outline.parts] at h
  | junction j ds =>
    obtain rfl : ds = [] := by simpa [ho, Outline.parts] using h
    cases j with
    | and => rfl
    | or => exact absurd ho hor

end Witness

/-! ### What a tree names -/

namespace Tree

/-- A leaf is a part of the input. -/
def Names (t : Tree) (input : Pin) : Prop :=
  ∃ id ∈ t.leaves, ∃ key ∈ t.object? id, key.subject = input.function ∧
    key.designator.head = .input input.number

instance (t : Tree) (input : Pin) : Decidable (t.Names input) :=
  inferInstanceAs (Decidable (∃ id ∈ t.leaves, ∃ key ∈ t.object? id, _ ∧ _))

/-- An output of the function is explained by an AND node that joins nothing. -/
def Blank (t : Tree) (f : FunctionId) : Prop :=
  ∃ id key n, t.kind? id = some (.object key) ∧ key.subject = f ∧
    key.designator.head = .output n ∧
    ∃ e ∈ t.children id, t.kind? e.target = some .and ∧ t.children e.target = []

end Tree

namespace Tracer.Grown

variable {w : Wiring} {query : Query} {key key' : ObjectKey} {s : Tracing} {n : Nat}

/-- An input that is met and that nothing explains is named. -/
theorem names_of_met (h : Grown w query key s) (hwaits : ∀ id, ¬s.Waits id)
    (hmet : w.Met query key key') (hr : w.rule query key' = none)
    (hn : key'.designator.head = .input n) :
    (s.keeper.toTree 0).Names ⟨key'.subject, n⟩ := by
  obtain ⟨id, hmem, hk⟩ := exists_expanded h hwaits hmet
  have hc := h.obeys id key' hk hmem
  rw [hr] at hc
  exact ⟨id, Tree.mem_leaves_iff.2 ⟨hc, h.linked id _ hk⟩, key',
    (Keeper.object?_toTree 0).trans (Keeper.object?_eq_some_iff.2 hk), rfl, hn⟩

/-- An output that is met and is explained by no part has an AND node below it that
    joins nothing. -/
theorem blank_of_met {witness : Witness} (h : Grown w query key s)
    (hwaits : ∀ id, ¬s.Waits id) (hmet : w.Met query key key')
    (hn : key'.designator.head = .output n) (hw : w.witness key'.subject = some witness)
    (hparts : (witness.outline query key'.designator.rest).parts = []) :
    (s.keeper.toTree 0).Blank key'.subject := by
  obtain ⟨id, hmem, hk⟩ := exists_expanded h hwaits hmet
  have hshows := h.obeys id key' hk hmem
  rw [rule_of_output hn, hw, Option.map_some, Witness.outline_eq_of_parts hparts] at hshows
  obtain ⟨middle, hc, hkind, hs⟩ := hshows
  have hlink : ⟨middle, .exact⟩ ∈ s.keeper.children id := hc ▸ List.mem_cons_self
  exact ⟨id, key', n, hk, rfl, hn, _, hlink, hkind, List.map_eq_nil_iff.1 hs⟩

end Tracer.Grown

namespace Circuit

variable {c c' : Circuit} {target f : FunctionId} {i i' : Instance} {values : List Value}
  {outs : List Value} {e : Evaluation} {v : Value} {n : Nat} {input output : Pin}

/-! ### Values delivered -/

theorem Evaluated.length_values (h : Evaluated c f i values e) :
    values.length = i.function.inArity := by
  obtain ⟨m, hm⟩ := h.deliveries
  rw [← (forall₂_of_mapM_run (hm m (Nat.le_refl m))).length_eq, List.length_range]

/-- Each value is what an input delivers. -/
theorem Evaluated.exists_delivered (h : Evaluated c f i values e) (hn : n < i.function.inArity) :
    ∃ v, values[n]? = some v ∧ Settles (fun m => c.delivered (c.plain m) ⟨f, n⟩) (.ok v) := by
  obtain ⟨m, hm⟩ := h.deliveries
  obtain ⟨v, hv, -⟩ := exists_of_mapM_range (hm m (Nat.le_refl m)) hn
  refine ⟨v, hv, m, fun fuel hfuel => ?_⟩
  obtain ⟨v', hv', hrun⟩ := exists_of_mapM_range (hm fuel hfuel) hn
  rwa [Option.some.inj (hv.symm.trans hv')]

/-- What is fed is delivered. -/
theorem eq_of_settles_fed (hs : c.source? input = some (.fed v)) {u : Value}
    (hu : Settles (fun m => c.delivered (c.plain m) input) (.ok u)) : u = v :=
  Except.ok.inj (hu.unique (settles_delivered_fed hs))

/-- What a wire delivers is the output that it comes from. -/
theorem getElem?_of_settles_wire (hs : c.source? input = some (.wire output))
    (ho : Settles (c.plain · output.function) (.ok outs))
    (hv : Settles (fun m => c.delivered (c.plain m) input) (.ok v)) :
    outs[output.number]? = some v := by
  cases hget : outs[output.number]? with
  | none => exact absurd (hv.unique (settles_delivered_noOutput hs ho hget)) nofun
  | some u => rw [Except.ok.inj (hv.unique (settles_delivered_wire hs ho hget))]

/-- Where plain evaluation gives outputs, evaluation gives these. -/
theorem evaluate_of_settles (hwired : c.WellWired) (h : Settles (c.plain · f) (.ok outs)) :
    (c.evaluate f).1 = .ok outs := by
  obtain ⟨r, p, -, heq, hp⟩ := exists_pull_eq hwired f
  obtain ⟨m, hm⟩ := h
  have hacyclic := acyclic_of_acc (acc_of_plain hwired (hm m (Nat.le_refl m)))
  rw [heq]
  exact (hp.settles hacyclic).unique ⟨m, hm⟩

/-- After a success, all functions upstream have been evaluated. -/
theorem exists_evaluated (hwired : c.WellWired) (he : (c.evaluate target).1 = .ok outs)
    (hf : c.Upstream target f) : ∃ i values e, Evaluated c f i values e := by
  obtain ⟨r, p, -, heq, hp⟩ := exists_pull_eq hwired target
  rw [heq] at he
  obtain ⟨-, i, values, e, h, -⟩ := hp.done f (hp.all outs he f hf)
  exact ⟨i, values, e, h⟩

/-! ### Feeding other values -/

/-- The circuits have the same functions and wires, and the pins that are to be kept
    are fed the same. -/
structure Refed (kept : Pin → Prop) (c c' : Circuit) : Prop where
  function : ∀ id, c.function? id = c'.function? id
  wire : ∀ input output, c.source? input = some (.wire output) →
    c'.source? input = some (.wire output)
  fed : ∀ input v, kept input → c.source? input = some (.fed v) →
    c'.source? input = some (.fed v)

/-- Both circuits give the same outputs of the function. -/
def SameOutputs (c c' : Circuit) (f : FunctionId) : Prop :=
  ∃ outs, Settles (c.plain · f) (.ok outs) ∧ Settles (c'.plain · f) (.ok outs)

namespace Refed

variable {kept : Pin → Prop}

theorem upstream (h : Refed kept c c') (hf : c.Upstream target f) : c'.Upstream target f :=
  Relation.ReflTransGen.mono (fun _ _ hneeds => by
    obtain ⟨n, m, hs⟩ := hneeds
    exact ⟨n, m, h.wire _ _ hs⟩) _ _ hf

/-- A function gives the same outputs where its inputs deliver the same values. -/
theorem sameOutputs (h : Refed kept c c') {values' : List Value} {e' : Evaluation}
    (he : Evaluated c f i values e) (he' : Evaluated c' f i' values' e')
    (hinputs : ∀ n < i.function.inArity, (∃ v, c.source? ⟨f, n⟩ = some (.fed v) ∧ kept ⟨f, n⟩) ∨
      ∃ output, c.source? ⟨f, n⟩ = some (.wire output) ∧ SameOutputs c c' output.function) :
    SameOutputs c c' f := by
  have hfunction : i'.function = i.function := by
    have hf := h.function f
    rw [function?, function?, he.instance_eq, he'.instance_eq] at hf
    exact (Option.some.inj hf).symm
  have hvalues : values = values' := by
    refine List.ext_getElem? fun n => ?_
    by_cases hn : n < i.function.inArity
    · obtain ⟨v, hv, hd⟩ := he.exists_delivered hn
      obtain ⟨v', hv', hd'⟩ := he'.exists_delivered (hfunction ▸ hn)
      rw [hv, hv']
      rcases hinputs n hn with ⟨u, hs, hkept⟩ | ⟨output, hs, outs, ho, ho'⟩
      · rw [eq_of_settles_fed hs hd, eq_of_settles_fed (h.fed _ _ hkept hs) hd']
      · rw [← getElem?_of_settles_wire hs ho hd,
          ← getElem?_of_settles_wire (h.wire _ _ hs) ho' hd']
    · have hlength := he.length_values
      have hlength' := he'.length_values
      rw [hfunction] at hlength'
      rw [List.getElem?_eq_none (by omega), List.getElem?_eq_none (by omega)]
  have hev := he'.evaluate
  rw [← hvalues, hfunction, he.evaluate] at hev
  exact ⟨e.outputs, he.settles, Except.ok.inj hev ▸ he'.settles⟩

variable {query : Query} {key key' : ObjectKey}

/-- Nothing explains an input that is fed. -/
theorem rule_of_fed (hn : key.designator.head = .input n)
    (hs : c.source? ⟨key.subject, n⟩ = some (.fed v)) : c.wiring.rule query key = none := by
  have hfeeder : c.wiring.feeder ⟨key.subject, n⟩ = none := Option.eq_none_iff_forall_ne_some.2
    fun _ ho => absurd (hs.symm.trans (source?_of_feeder? ho)) nofun
  rw [rule_of_input hn, hfeeder, Option.map_none]

/-- A function of which a trace meets an output gives the same outputs, if each does
    that is explained by no part. -/
theorem sameOutputs_of_met (h : Refed kept c c') (hs : c.Supplied target)
    (hev : ∀ f, c.Upstream target f → ∃ i values e, Evaluated c f i values e)
    (hev' : ∀ f, c.Upstream target f → ∃ i values e, Evaluated c' f i values e)
    (hkept : ∀ key' n, c.wiring.Met query key key' → c.wiring.rule query key' = none →
      key'.designator.head = .input n → kept ⟨key'.subject, n⟩)
    (hblank : ∀ key' n w i, c.wiring.Met query key key' → key'.designator.head = .output n →
      c.wiring.witness key'.subject = some w →
      (w.outline query key'.designator.rest).parts = [] →
      c.instances[key'.subject]? = some i → i.function.inArity ≠ 0 →
      SameOutputs c c' key'.subject)
    (hmet : c.wiring.Met query key key') (hf : c.Upstream target key'.subject)
    (hn : key'.designator.head = .output n) : SameOutputs c c' key'.subject := by
  have hacc : Acc (fun g f => c.Needs f g) key'.subject := acc_of_reflTransGen hs.acc hf
  generalize hsubject : key'.subject = f at hacc
  induction hacc generalizing key' n with
  | intro f _ ih =>
    subst hsubject
    obtain ⟨i, values, e, he⟩ := hev _ hf
    obtain ⟨i', values', e', he'⟩ := hev' _ hf
    obtain ⟨j, w, hj, hw, harity⟩ := hs.witness _ hf
    obtain rfl := Option.some.inj (hj.symm.trans he.instance_eq)
    have hwitness := witness?_eq hj hw
    by_cases hparts : (w.outline query key'.designator.rest).parts = []
    · by_cases hzero : j.function.inArity = 0
      · exact h.sameOutputs he he' fun m hm => absurd (hzero ▸ hm) (Nat.not_lt_zero m)
      · exact hblank key' n w j hmet hn hwitness hparts hj hzero
    · refine h.sameOutputs he he' fun m hm => ?_
      obtain ⟨d, hd, hhead⟩ := Witness.exists_head_of_lt hparts (harity ▸ hm)
      have hmet' := hmet.tail (Wiring.leads_of_output hn hwitness hd)
      obtain ⟨source, hsource⟩ := hs.source _ j m hf hj hm
      cases source with
      | fed v =>
        exact .inl ⟨v, hsource, hkept ⟨d, _⟩ m hmet' (rule_of_fed hhead hsource) hhead⟩
      | wire output =>
        have hneeds : c.Needs key'.subject output.function := ⟨m, output.number, hsource⟩
        have hmet'' := hmet'.tail (Wiring.leads_of_input hhead (feeder?_eq_some_iff.2 hsource))
        exact .inr ⟨output, hsource, ih _ hneeds hmet'' (hf.tail hneeds)
          (Designator.head_nest_cons Part.output_ne_identity) rfl⟩

end Refed

/-- Feeds several values in order. -/
def feedAll (c : Circuit) (feeds : List (Pin × Value)) : Except Error Circuit :=
  feeds.foldlM (fun c feed => c.feed feed.1 feed.2) c

theorem WellWired.feedAll {feeds : List (Pin × Value)} (h : c.WellWired)
    (hc : c.feedAll feeds = .ok c') : c'.WellWired := by
  induction feeds generalizing c with
  | nil => exact Except.ok.inj hc ▸ h
  | cons feed feeds ih =>
    rw [Circuit.feedAll, List.foldlM_cons] at hc
    cases hfeed : c.feed feed.1 feed.2 with
    | error e => simp [hfeed, bind, Except.bind] at hc
    | ok c₁ =>
      rw [hfeed] at hc
      exact ih (h.feed hfeed) hc

/-- Feeding other values to pins that are fed leaves wires and other pins as they
    are. -/
theorem refed_of_feedAll {kept : Pin → Prop} {feeds : List (Pin × Value)}
    (hc : c.feedAll feeds = .ok c')
    (hfeeds : ∀ feed ∈ feeds, (∃ v, c.source? feed.1 = some (.fed v)) ∧ ¬kept feed.1) :
    Refed kept c c' := by
  induction feeds generalizing c with
  | nil =>
    obtain rfl : c = c' := Except.ok.inj hc
    exact ⟨fun _ => rfl, fun _ _ h => h, fun _ _ _ h => h⟩
  | cons feed feeds ih =>
    obtain ⟨pin, value⟩ := feed
    rw [feedAll, List.foldlM_cons] at hc
    cases hfeed : c.feed pin value with
    | error e => simp [hfeed, bind, Except.bind] at hc
    | ok c₁ =>
      obtain ⟨-, rfl⟩ := feed_eq_ok_iff.1 hfeed
      rw [hfeed] at hc
      obtain ⟨⟨u, hu⟩, hpin⟩ := hfeeds _ List.mem_cons_self
      have hrest : Refed kept (c.setSource pin (.fed value)) c' := by
        refine ih hc fun feed hmem => ?_
        obtain ⟨⟨v, hv⟩, hkept⟩ := hfeeds feed (List.mem_cons_of_mem _ hmem)
        refine ⟨?_, hkept⟩
        rw [source?_setSource]
        split
        · exact ⟨value, rfl⟩
        · exact ⟨v, hv⟩
      refine ⟨hrest.function, fun input output hs => hrest.wire _ _ ?_,
        fun input v hkept hs => hrest.fed _ _ hkept ?_⟩
      · -- A pin that a wire leads to is not fed.
        have hne : input ≠ pin := fun he => by
          rw [he, hu] at hs
          exact absurd hs nofun
        rw [source?_setSource, if_neg hne, hs]
      · have hne : input ≠ pin := fun he => hpin (he ▸ hkept)
        rw [source?_setSource, if_neg hne, hs]

variable {query : Query} {d : Designator}

/-- After a success, values that are fed to pins that no leaf of the trace of an
    output names can be replaced by others. If the function can be evaluated again,
    its outputs are what they were, provided that so are those of the functions with
    inputs that an AND node explains that joins nothing. -/
theorem outputs_eq_of_feedAll (h : c.Reachable) (he : (c.evaluate target).1 = .ok outs)
    (query : Query) (hd : d.head = .output n) : ∃ m t,
      (∀ fuel ≥ m, Tracer.tree? {} fuel (c.evaluate target).2.wiring query d target = some t) ∧
      ∀ feeds c', (c.evaluate target).2.feedAll feeds = .ok c' →
        (∀ feed ∈ feeds, (∃ v, (c.evaluate target).2.source? feed.1 = some (.fed v)) ∧
          ¬t.Names feed.1) →
        (∀ f i, t.Blank f → (c.evaluate target).2.instances[f]? = some i →
          i.function.inArity ≠ 0 → (c'.evaluate f).1 = ((c.evaluate target).2.evaluate f).1) →
        ∀ outs', (c'.evaluate target).1 = .ok outs' → outs' = outs := by
  have hs : (c.evaluate target).2.Supplied target := supplied_of_evaluate h.wellWired he
  have hwired : (c.evaluate target).2.WellWired := h.wellWired.evaluate target
  have he₁ : ((c.evaluate target).2.evaluate target).1 = .ok outs := by
    rw [← (alike_evaluate h.wellWired target).evaluate_eq h.wellWired, he]
  generalize (c.evaluate target).2 = c₁ at hs hwired he₁
  obtain ⟨m, t, ht⟩ := hs.exists_tree {} query d
  refine ⟨m, t, ht, fun feeds c' hfeeds hnames hblank outs' he' => ?_⟩
  obtain ⟨last, hrun, rfl, hwaits⟩ := Tracer.exists_run (ht m (Nat.le_refl m))
  have hg : Tracer.Grown c₁.wiring query ⟨d, target⟩ last := Tracer.grown_start.run hrun
  have hrefed : Refed (last.keeper.toTree 0).Names c₁ c' := refed_of_feedAll hfeeds hnames
  have hwired' : c'.WellWired := hwired.feedAll hfeeds
  have hev (f) (hf : c₁.Upstream target f) := exists_evaluated hwired he₁ hf
  have hev' (f) (hf : c₁.Upstream target f) := exists_evaluated hwired' he' (hrefed.upstream hf)
  have hkept (key n) (hmet : c₁.wiring.Met query ⟨d, target⟩ key)
      (hr : c₁.wiring.rule query key = none) (hn : key.designator.head = .input n) :
      (last.keeper.toTree 0).Names ⟨key.subject, n⟩ := hg.names_of_met (hwaits rfl) hmet hr hn
  have hsilent (key n w i) (hmet : c₁.wiring.Met query ⟨d, target⟩ key)
      (hn : key.designator.head = .output n) (hw : c₁.wiring.witness key.subject = some w)
      (hparts : (w.outline query key.designator.rest).parts = [])
      (hi : c₁.instances[key.subject]? = some i) (hzero : i.function.inArity ≠ 0) :
      SameOutputs c₁ c' key.subject := by
    have hf : c₁.Upstream target key.subject := upstream_of_met hmet
    obtain ⟨_, _, e, hE⟩ := hev _ hf
    obtain ⟨_, _, e', hE'⟩ := hev' _ hf
    have heq := hblank _ i (hg.blank_of_met (hwaits rfl) hmet hn hw hparts) hi hzero
    rw [evaluate_of_settles hwired hE.settles, evaluate_of_settles hwired' hE'.settles] at heq
    exact ⟨e.outputs, hE.settles, Except.ok.inj heq ▸ hE'.settles⟩
  have hroot : c₁.wiring.Met query ⟨d, target⟩ ⟨d, target⟩ := .refl
  obtain ⟨outs'', ho, ho'⟩ := hrefed.sameOutputs_of_met hs hev hev' hkept hsilent hroot .refl hd
  have heq := evaluate_of_settles hwired ho
  have heq' := evaluate_of_settles hwired' ho'
  rw [he₁] at heq
  rw [he'] at heq'
  rw [Except.ok.inj heq, Except.ok.inj heq']

/-- All of no values, and one more. -/
def vacuous : Circuit :=
  ((((empty.add (.quantifier .forAll)).1.add (.nary .and 2)).1.setSource ⟨1, 0⟩
    (.wire ⟨0, 0⟩)).setSource ⟨1, 1⟩ (.fed (.bool true))).setSource ⟨0, 0⟩ (.fed (.list []))

theorem reachable_vacuous : vacuous.Reachable :=
  ((((Reachable.empty.add _).add _).wire (by rfl) (by rfl)).fed (by rfl)).fed (by rfl)

theorem exists_tree_vacuous : ∃ t, Tracer.tree? {} 6 (vacuous.evaluate 1).2.wiring .causality
    (Designator.compose [.output 0]) 1 = some t ∧ ¬t.Names ⟨0, 0⟩ := by
  have h : (Tracer.tree? {} 6 (vacuous.evaluate 1).2.wiring .causality
      (Designator.compose [.output 0]) 1).any (¬·.Names ⟨0, 0⟩) = true := by decide +kernel
  obtain ⟨t, ht, hn⟩ := (Option.any_eq_true _ _).1 h
  exact ⟨t, ht, of_decide_eq_true hn⟩

/-- Nothing of the list is named, and another list of which all is true makes no
    difference. -/
theorem outputs_eq_vacuous : (vacuous.evaluate 1).1 = .ok [.bool true] ∧ ∃ c',
    (vacuous.evaluate 1).2.feedAll [(⟨0, 0⟩, .list [.bool true])] = .ok c' ∧
      ∀ outs, (c'.evaluate 1).1 = .ok outs → outs = [.bool true] := by
  have he : (vacuous.evaluate 1).1 = .ok [.bool true] := by rfl
  obtain ⟨m, t, ht, h⟩ := outputs_eq_of_feedAll (d := Designator.compose [.output 0])
    reachable_vacuous he .causality (Designator.head_compose_cons Part.output_ne_identity)
  obtain ⟨t', ht', hnames⟩ := exists_tree_vacuous
  obtain rfl : t' = t := Tracer.tree?_unique ht' (ht m (Nat.le_refl m))
  have hfed : (vacuous.evaluate 1).2.source? ⟨0, 0⟩ = some (.fed (.list [])) := by rfl
  have hfeed : (vacuous.evaluate 1).2.feedAll [(⟨0, 0⟩, .list [.bool true])] =
      .ok ((vacuous.evaluate 1).2.setSource ⟨0, 0⟩ (.fed (.list [.bool true]))) := by rfl
  refine ⟨he, _, hfeed, h _ _ hfeed ?_ ?_⟩
  · intro feed hfeed
    obtain rfl := List.mem_singleton.1 hfeed
    exact ⟨⟨_, hfed⟩, hnames⟩
  · intro f i _ hi _
    match f with
    | 0 => rfl
    | 1 => rfl

/-- A list with a false element does, though it is not named either. -/
theorem vacuous_not_names : (vacuous.evaluate 1).1 = .ok [.bool true] ∧
    (∃ t, Tracer.tree? {} 6 (vacuous.evaluate 1).2.wiring .causality
      (Designator.compose [.output 0]) 1 = some t ∧ ¬t.Names ⟨0, 0⟩) ∧
    ∃ c', (vacuous.evaluate 1).2.feedAll [(⟨0, 0⟩, .list [.bool false])] = .ok c' ∧
      (c'.evaluate 1).1 = .ok [.bool false] := by
  refine ⟨by rfl, exists_tree_vacuous, ?_⟩
  exact ⟨(vacuous.evaluate 1).2.setSource ⟨0, 0⟩ (.fed (.list [.bool false])), rfl, by rfl⟩

end Circuit

end Lineage
