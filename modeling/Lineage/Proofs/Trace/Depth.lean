import Lineage.Proofs.Trace.Fuel
import Lineage.Proofs.Trace.Part

/-!
# Traces of bounded depth

A bound on the depth is one on the way that a trace goes, which visits no part
twice (`Wiring.Path`). It is not one on how far parts are from the root. Parts that
are farther than the bound are not expanded. But a part that is nearer may be met
first at the very bound, at the end of a longer way. It is expanded then, once and
for all, and what explains it is not, even if another way would have led there
within the bound.

So a trace expands the parts within the bound that can be reached by parts which are
at the end of no way of just that many hops (`Wiring.Within`), and maybe some
others within the bound, as the order of branches has it (`exists_bounded_tree`). A
higher bound may therefore remove nodes from a tree (`detour_not_expands`), unless
no part nearer than the lower one is at the end of a way as long as the higher one
(`Wiring.Clear`).
-/

namespace Lineage

namespace Wiring

variable (w : Wiring) (query : Query) (key : ObjectKey)

/-- A way from the part `key`, by explanations, that visits no part twice; the part
    it has come to is first. -/
inductive Path : List ObjectKey → Prop
  | start : Path [key]
  | step {key' key'' : ObjectKey} {path : List ObjectKey} (h : Path (key' :: path))
      (hleads : w.Leads query key' key'') (hn : key'' ∉ key' :: path) :
      Path (key'' :: key' :: path)

/-- A way of `n` hops that visits no part twice ends in the part. -/
def Ends (n : Nat) (key' : ObjectKey) : Prop :=
  ∃ path : List ObjectKey, path.length = n ∧ w.Path query key (key' :: path)

/-- Explanations lead to the part in `n` hops. -/
inductive Hops : Nat → ObjectKey → Prop
  | start : Hops 0 key
  | step {n : Nat} {key' key'' : ObjectKey} (h : Hops n key') (hleads : w.Leads query key' key'') :
      Hops (n + 1) key''

/-- Explanations lead to the part by parts in which no way of `m` hops ends that
    visits no part twice. -/
def Within (m : Nat) (key' : ObjectKey) : Prop :=
  Relation.ReflTransGen (fun a b => w.Leads query a b ∧ ¬w.Ends query key m a) key key'

/-- No way of `n` hops that visits no part twice ends in a part nearer than `m`. -/
def Clear (m n : Nat) : Prop :=
  ∀ l < m, ∀ key', w.Hops query key l key' → ¬w.Ends query key n key'

variable {w query key} {key' : ObjectKey} {l m n : Nat}

theorem Path.hops {path : List ObjectKey} (h : w.Path query key (key' :: path)) :
    w.Hops query key path.length key' := by
  generalize hp : key' :: path = path' at h
  induction h generalizing key' path with
  | start =>
    obtain ⟨rfl, rfl⟩ := List.cons_eq_cons.1 hp
    exact .start
  | step h hleads _ ih =>
    obtain ⟨rfl, rfl⟩ := List.cons_eq_cons.1 hp
    exact .step (ih rfl) hleads

theorem Ends.hops (h : w.Ends query key n key') : w.Hops query key n key' := by
  obtain ⟨path, rfl, hp⟩ := h
  exact hp.hops

theorem Clear.mono (h : w.Clear query key m n) (hle : l ≤ m) : w.Clear query key l n :=
  fun i hi => h i (Nat.lt_of_lt_of_le hi hle)

/-- A part is within `m` if no way of `m` hops ends in a part that is nearer. -/
theorem Hops.within (h : w.Hops query key n key') (hclear : w.Clear query key n m) :
    w.Within query key m key' := by
  induction h with
  | start => exact .refl
  | @step n key' key'' h hleads ih =>
    have hends := hclear n (Nat.lt_succ_self n) key' h
    exact (ih (hclear.mono (Nat.le_succ n))).tail ⟨hleads, hends⟩

/-- What explanations lead to, a trace may meet. -/
theorem Hops.met (h : w.Hops query key n key') : w.Met query key key' := by
  induction h with
  | start => exact .refl
  | step _ hleads ih => exact ih.tail hleads

end Wiring

namespace Tracer

variable {w : Wiring} {query : Query} {key key' : ObjectKey} {t t' t₁ : Tracing} {node id : NodeId}
  {nodes : List NodeId} {m n fuel depth : Nat} {before : List ObjectKey}

/-! ### What an explanation ends in -/

/-- The nodes that an explanation ends in stand for what explains the part. -/
theorem leads_of_mem_leaves (hk : t.keeper.kind? node = some (.object key))
    (hid : id ∈ (explain w query node t.keeper).2) :
    ∃ key', (explain w query node t.keeper).1.kind? id = some (.object key') ∧
      w.Leads query key key' := by
  cases hr : w.rule query key with
  | none =>
    rw [explain_of_no_rule hk hr] at hid
    exact absurd hid List.not_mem_nil
  | some r =>
    rw [explain_of_rule hk hr] at hid ⊢
    obtain ⟨d, hd, hf⟩ := (Keeper.drawn_attachTo r.1 (Keeper.lt_size_of_kind? hk)).mem_leaves hid
    exact ⟨_, Keeper.kind?_of_find? hf, r.1, r.2, hr, d, hd, rfl⟩

/-- An explanation ends in nodes for all that explains the part. -/
theorem exists_mem_leaves (hk : t.keeper.kind? node = some (.object key))
    (hleads : w.Leads query key key') : ∃ id ∈ (explain w query node t.keeper).2,
      (explain w query node t.keeper).1.kind? id = some (.object key') := by
  obtain ⟨subject, o, hr, d, hd, rfl⟩ := hleads
  rw [explain_of_rule hk hr]
  have hall := (Keeper.drawn_attachTo (o := o) subject (Keeper.lt_size_of_kind? hk)).find?_leaves
  obtain ⟨i, hi, rfl⟩ := List.mem_iff_getElem.1 hd
  have hlt := hall.length_eq ▸ hi
  exact ⟨_, List.getElem_mem hlt, Keeper.kind?_of_find? (hall.get hi hlt)⟩

/-! ### Parts that have been expanded -/

/-- The part has been expanded, or tried. -/
def Tracing.Done (t : Tracing) (key : ObjectKey) : Prop :=
  ∃ id ∈ t.expanded, t.keeper.kind? id = some (.object key)

theorem Tracing.Done.mono (h : t.Done key') (hr : Run w query t t') : t'.Done key' := by
  obtain ⟨id, hid, hk⟩ := h
  exact ⟨id, hr.le.2.subset hid, hr.le.1 _ _ hk⟩

/-- A way of at most `m` hops ends in the part, and if it has less, all that explains
    the part has been expanded. -/
def Tracing.Settled (w : Wiring) (query : Query) (key : ObjectKey) (m : Nat) (t : Tracing)
    (key' : ObjectKey) : Prop :=
  ∃ n ≤ m, w.Ends query key n key' ∧ (n < m → ∀ key'', w.Leads query key' key'' → t.Done key'')

theorem Tracing.Settled.mono (h : t.Settled w query key m key') (hr : Run w query t t') :
    t'.Settled w query key m key' := by
  obtain ⟨n, hn, hends, hdone⟩ := h
  exact ⟨n, hn, hends, fun hlt key'' hleads => (hdone hlt key'' hleads).mono hr⟩

/-- What has been expanded from one moment to another is settled then. -/
def Tracing.Settles (w : Wiring) (query : Query) (key : ObjectKey) (m : Nat) (t t' : Tracing) :
    Prop :=
  ∀ key', t'.Done key' → t.Done key' ∨ t'.Settled w query key m key'

theorem Tracing.Settles.trans (h : Tracing.Settles w query key m t t₁)
    (h' : Tracing.Settles w query key m t₁ t') (hr : Run w query t₁ t') :
    Tracing.Settles w query key m t t' := by
  intro key' hdone
  rcases h' key' hdone with hdone | hsettled
  · rcases h key' hdone with hdone | hsettled
    · exact .inl hdone
    · exact .inr (hsettled.mono hr)
  · exact .inr hsettled

/-- What is done for several nodes in turn settles, if it does for each. -/
theorem forEach_settles {step : NodeId → Tracing → Option Tracing}
    (hstep : ∀ node ∈ nodes, ∀ t₁ t₂, Run w query t t₁ → step node t₁ = some t₂ →
      Run w query t₁ t₂ ∧ (depth ≤ m → node ∈ t₂.expanded) ∧ Tracing.Settles w query key m t₁ t₂)
    (h : forEach step nodes t = some t') :
    Run w query t t' ∧ (depth ≤ m → ∀ node ∈ nodes, node ∈ t'.expanded) ∧
      Tracing.Settles w query key m t t' := by
  induction nodes generalizing t with
  | nil =>
    obtain rfl := Option.some.inj h
    exact ⟨.refl, fun _ _ hmem => absurd hmem List.not_mem_nil, fun _ hdone => .inl hdone⟩
  | cons node nodes ih =>
    obtain ⟨t₁, h₁, h⟩ := Option.bind_eq_some_iff.1 h
    obtain ⟨hr, hmem, hsettles⟩ := hstep node List.mem_cons_self t t₁ .refl h₁
    obtain ⟨hr', hmem', hsettles'⟩ := ih (fun id hid t₁ t₂ hr' =>
      hstep id (List.mem_cons_of_mem _ hid) t₁ t₂ (hr.trans hr')) h
    refine ⟨hr.trans hr', fun hdepth id hid => ?_, hsettles.trans hsettles' hr'⟩
    rcases List.mem_cons.1 hid with rfl | hid
    · exact hr'.le.2.subset (hmem hdepth)
    · exact hmem' hdepth id hid

/-- A way leads to the part by parts that have been expanded, `before`. -/
structure Tracing.OnWay (w : Wiring) (query : Query) (key : ObjectKey) (t : Tracing)
    (before : List ObjectKey) (key' : ObjectKey) : Prop where
  grown : Grown w query key t
  done : ∀ key'' ∈ before, t.Done key''
  path : key' ∉ before → w.Path query key (key' :: before)

namespace Tracing.OnWay

theorem start : Tracing.OnWay w query key ⟨(Keeper.empty.keep key).1, []⟩ [] key where
  grown := grown_start
  done _ h := absurd h List.not_mem_nil
  path _ := .start

theorem mono (h : t.OnWay w query key before key') (hr : Run w query t t') :
    t'.OnWay w query key before key' where
  grown := h.grown.run hr
  done key'' hmem := (h.done key'' hmem).mono hr
  path := h.path

/-- A way that has come to a part that has not been expanded visits no part twice. -/
theorem path_of_not_mem (h : t.OnWay w query key before key')
    (hk : t.keeper.kind? node = some (.object key')) (hn : node ∉ t.expanded) :
    w.Path query key (key' :: before) := by
  refine h.path fun hmem => ?_
  obtain ⟨id, hid, hkid⟩ := h.done key' hmem
  exact hn (h.grown.unique id node key' hkid hk ▸ hid)

/-- The way goes on with what explains the part. -/
theorem next (h : t.OnWay w query key before key')
    (hk : t.keeper.kind? node = some (.object key')) (hn : node ∉ t.expanded)
    {key'' : ObjectKey} (hleads : w.Leads query key' key'') :
    Tracing.OnWay w query key ⟨(explain w query node t.keeper).1, node :: t.expanded⟩
      (key' :: before) key'' := by
  have hs : Step w query t _ := .expand hk hn
  refine ⟨h.grown.step hs, fun key₁ hmem => ?_, .step (h.path_of_not_mem hk hn) hleads⟩
  rcases List.mem_cons.1 hmem with rfl | hmem
  · exact ⟨node, List.mem_cons_self, hs.le.1 _ _ hk⟩
  · exact (h.done key₁ hmem).mono (.single hs)

end Tracing.OnWay

/-- Expanding a node settles, at the end of a way of as many hops as it is deep. The
    node has been expanded then if it is not too deep. -/
theorem expand_settles (hway : t.OnWay w query key before key')
    (hk : t.keeper.kind? node = some (.object key')) (hdepth : before.length = depth)
    (h : expand ⟨some m⟩ w query fuel depth node t = some t') :
    (depth ≤ m → node ∈ t'.expanded) ∧ Tracing.Settles w query key m t t' := by
  induction fuel generalizing depth node t t' key' before with
  | zero => exact absurd h nofun
  | succ fuel ih =>
    rw [expand] at h
    split at h
    · next hn =>
      obtain rfl := Option.some.inj h
      refine ⟨fun hle => hn.resolve_left ?_, fun _ hdone => .inl hdone⟩
      simpa using hle
    · next hn =>
      obtain ⟨hle, hnew⟩ := not_or.1 hn
      have hle : depth ≤ m := by simpa using hle
      have hs : Step w query t _ := .expand hk hnew
      -- The way goes on to all that the explanation ends in.
      have hstep (id) (hid : id ∈ (explain w query node t.keeper).2) (t₁ t₂)
          (hr : Run w query ⟨(explain w query node t.keeper).1, node :: t.expanded⟩ t₁)
          (h : expand ⟨some m⟩ w query fuel (depth + 1) id t₁ = some t₂) :
          Run w query t₁ t₂ ∧ (depth + 1 ≤ m → id ∈ t₂.expanded) ∧
            Tracing.Settles w query key m t₁ t₂ := by
        obtain ⟨key'', hk'', hleads⟩ := leads_of_mem_leaves hk hid
        have hk₁ := hr.le.1 _ _ hk''
        exact ⟨expand_run ⟨key'', hk₁⟩ h,
          ih ((hway.next hk hnew hleads).mono hr) hk₁ (by simp [hdepth]) h⟩
      obtain ⟨hr, hmem, hsettles⟩ := forEach_settles hstep h
      refine ⟨fun _ => hr.le.2.subset List.mem_cons_self, fun key₁ hdone => ?_⟩
      rcases hsettles key₁ hdone with ⟨id, hid, hkid⟩ | hsettled
      · rcases List.mem_cons.1 hid with rfl | hid
        · -- The part itself, at the end of the way.
          obtain rfl := NodeKind.object.inj (Option.some.inj ((hs.le.1 _ _ hk).symm.trans hkid))
          refine .inr ⟨depth, hle, ⟨before, hdepth, hway.path_of_not_mem hk hnew⟩, ?_⟩
          intro hlt key'' hleads
          obtain ⟨id, hid, hk''⟩ := exists_mem_leaves hk hleads
          exact ⟨id, hmem hlt id hid, hr.le.1 _ _ hk''⟩
        · obtain ⟨key₂, hk₂⟩ := hway.grown.object id hid
          obtain rfl := NodeKind.object.inj (Option.some.inj ((hs.le.1 _ _ hk₂).symm.trans hkid))
          exact .inl ⟨id, hid, hk₂⟩
      · exact .inr hsettled

/-- Fuel for as many nodes as may be expanded one below the other is enough. -/
theorem expand_isSome_of_depth (hnode : t.IsObject node) (hfuel : m + 2 ≤ fuel + depth)
    (hpos : 0 < fuel) : ∃ t', expand ⟨some m⟩ w query fuel depth node t = some t' := by
  induction fuel generalizing depth node t with
  | zero => exact absurd hpos (Nat.lt_irrefl 0)
  | succ fuel ih =>
    rw [expand]
    split
    · exact ⟨t, rfl⟩
    · next hn =>
      obtain ⟨key', hk⟩ := hnode
      have hle : depth ≤ m := by simpa using (not_or.1 hn).1
      refine forEach_isSome (P := fun _ => True) (fun node t _ hnode => ?_) trivial
        fun _ => object_of_mem_leaves hk
      have hfuel' : m + 2 ≤ fuel + (depth + 1) := by omega
      obtain ⟨t', h⟩ := ih hnode hfuel' (by omega)
      exact ⟨t', h, trivial, (expand_run hnode h).le.1⟩

/-! ### Bounded trees -/

variable {d : Designator} {root : FunctionId} {tree tree' : Tree}

/-- The tree expands no part that is farther than `m`, and all that are within `m`
    and that the rule explains. -/
structure IsBounded (w : Wiring) (query : Query) (key : ObjectKey) (m : Nat) (t : Tree) : Prop where
  hops : ∀ key', t.Expands key' → w.rule query key' ≠ none ∧ ∃ n ≤ m, w.Hops query key n key'
  expands : ∀ key', w.Within query key m key' → w.rule query key' ≠ none → t.Expands key'

namespace IsBounded

variable {m' : Nat}

/-- If no way of `m` hops ends in a nearer part, the tree expands all that is not
    farther than `m`. -/
theorem expands_iff (h : IsBounded w query key m tree) (hclear : w.Clear query key m m)
    (hr : w.rule query key' ≠ none) :
    tree.Expands key' ↔ ∃ n ≤ m, w.Hops query key n key' := by
  constructor
  · intro hexp
    exact (h.hops key' hexp).2
  · rintro ⟨n, hn, hhops⟩
    exact h.expands key' (hhops.within (hclear.mono hn)) hr

/-- What is expanded is within another bound, if no way as long as that ends nearer. -/
theorem expands_of_expands (h : IsBounded w query key m tree) (h' : IsBounded w query key m' tree')
    (hclear : w.Clear query key m m') (hexp : tree.Expands key') : tree'.Expands key' := by
  obtain ⟨hr, n, hn, hhops⟩ := h.hops key' hexp
  exact h'.expands key' (hhops.within (hclear.mono hn)) hr

end IsBounded

/-- A trace is grown, and all that it has expanded is settled. -/
theorem exists_settled (h : tree? ⟨some m⟩ fuel w query d root = some tree) :
    ∃ last, Grown w query ⟨d, root⟩ last ∧ tree = last.keeper.toTree 0 ∧
      last.Done ⟨d, root⟩ ∧ ∀ key', last.Done key' → last.Settled w query ⟨d, root⟩ m key' := by
  rw [tree?_eq] at h
  obtain ⟨last, hlast, rfl⟩ := Option.map_eq_some_iff.1 h
  have hroot : (Keeper.empty.keep ⟨d, root⟩).1.kind? 0 = some (.object ⟨d, root⟩) :=
    Keeper.kind?_keep_empty
  have hrun := expand_run ⟨_, hroot⟩ hlast
  obtain ⟨hmem, hsettles⟩ := expand_settles .start hroot rfl hlast
  refine ⟨last, grown_start.run hrun, rfl, ⟨0, hmem (Nat.zero_le m), hrun.le.1 _ _ hroot⟩, ?_⟩
  intro key' hdone
  refine (hsettles key' hdone).resolve_left ?_
  rintro ⟨_, hid, -⟩
  exact absurd hid List.not_mem_nil

namespace Grown

variable {last : Tracing}

/-- A part is expanded in the tree if it has been expanded and the rule explains it. -/
theorem expands_iff (h : Grown w query key last) :
    (last.keeper.toTree 0).Expands key' ↔ last.Done key' ∧ w.rule query key' ≠ none := by
  constructor
  · rintro ⟨id, hk, hc⟩
    obtain ⟨e, he⟩ := List.exists_mem_of_ne_nil _ hc
    obtain ⟨subject, o, hr, -⟩ := h.exists_shows hk he
    exact ⟨⟨id, h.mem_expanded hk he, hk⟩, by simp [hr]⟩
  · rintro ⟨⟨id, hid, hk⟩, hr⟩
    have ho := h.obeys id key' hk hid
    cases hrule : w.rule query key' with
    | none => exact absurd hrule hr
    | some r =>
      rw [hrule] at ho
      obtain ⟨e, he⟩ := Keeper.Shows.exists_children ho
      exact ⟨id, hk, fun hc => absurd (hc.symm.trans he) nofun⟩

end Grown

theorem isBounded_of_tree? (h : tree? ⟨some m⟩ fuel w query d root = some tree) :
    IsBounded w query ⟨d, root⟩ m tree := by
  obtain ⟨last, hg, rfl, hroot, hsettled⟩ := exists_settled h
  refine ⟨fun key' hexp => ?_, fun key' hwithin hr => hg.expands_iff.2 ⟨?_, hr⟩⟩
  · obtain ⟨hdone, hr⟩ := hg.expands_iff.1 hexp
    obtain ⟨n, hn, hends, -⟩ := hsettled key' hdone
    exact ⟨hr, n, hn, hends.hops⟩
  · induction hwithin with
    | refl => exact hroot
    | @tail key₁ key₂ _ hstep ih =>
      -- The way that came to the part first was shorter than the bound.
      have hr₁ : w.rule query key₁ ≠ none := by
        obtain ⟨_, _, hr, -⟩ := hstep.1
        simp [hr]
      obtain ⟨n, hn, hends, hdone⟩ := hsettled key₁ (ih hr₁)
      have hne : n ≠ m := fun he => hstep.2 (he ▸ hends)
      exact hdone (by omega) key₂ hstep.1

/-- What an unbounded trace may meet, it expands if the rule explains it. -/
theorem expands_of_met (h : tree? {} fuel w query d root = some tree)
    (hmet : w.Met query ⟨d, root⟩ key') (hr : w.rule query key' ≠ none) : tree.Expands key' := by
  obtain ⟨last, hrun, rfl, hwaits⟩ := exists_run h
  have hg : Grown w query ⟨d, root⟩ last := grown_start.run hrun
  exact hg.expands_iff.2 ⟨exists_expanded hg (hwaits rfl) hmet, hr⟩

/-- A tree is part of another of the same part that expands at least as much. -/
theorem exists_isPart_of_expands {tracer tracer' : Tracer} {fuel' : Nat}
    (h : tree? tracer fuel w query d root = some tree)
    (h' : tree? tracer' fuel' w query d root = some tree')
    (hexp : ∀ key', tree.Expands key' → tree'.Expands key') : ∃ φ, tree.IsPart tree' φ := by
  obtain ⟨last, hrun, rfl, -⟩ := exists_run h
  obtain ⟨last', hrun', rfl, -⟩ := exists_run h'
  exact Grown.exists_isPart hexp (grown_start.run hrun) (grown_start.run hrun')

/-- A trace of bounded depth ends. It expands no part that is farther than the bound,
    and all within the bound that can be reached by parts in which no way ends of as
    many hops as the bound is. If no such way ends in a part nearer than the bound,
    it expands just the parts that are not farther. A trace with another bound has all
    of its nodes and links if no way as long as that bound ends in a part nearer than
    this one, and a trace without a bound has them always. -/
theorem exists_bounded_tree (w : Wiring) (query : Query) (d : Designator) (root : FunctionId)
    (m : Nat) : ∃ t, (∀ fuel ≥ m + 2, tree? ⟨some m⟩ fuel w query d root = some t) ∧
      IsBounded w query ⟨d, root⟩ m t ∧
      (w.Clear query ⟨d, root⟩ m m → ∀ key', w.rule query key' ≠ none →
        (t.Expands key' ↔ ∃ n ≤ m, w.Hops query ⟨d, root⟩ n key')) ∧
      (∀ m' fuel t', tree? ⟨some m'⟩ fuel w query d root = some t' →
        w.Clear query ⟨d, root⟩ m m' → ∃ φ, t.IsPart t' φ) ∧
      ∀ fuel t', tree? {} fuel w query d root = some t' → ∃ φ, t.IsPart t' φ := by
  have hroot : Tracing.IsObject ⟨(Keeper.empty.keep ⟨d, root⟩).1, []⟩ 0 :=
    ⟨_, Keeper.kind?_keep_empty⟩
  obtain ⟨last, hlast⟩ : ∃ last, expand ⟨some m⟩ w query (m + 2) 0 0 _ = some last :=
    expand_isSome_of_depth hroot (Nat.le_refl _) (Nat.succ_pos _)
  have ht : tree? ⟨some m⟩ (m + 2) w query d root = some (last.keeper.toTree 0) := by
    rw [tree?_eq, hlast]
    rfl
  have hb := isBounded_of_tree? ht
  refine ⟨_, fun fuel hfuel => tree?_mono hfuel ht, hb, ?_, ?_, ?_⟩
  · intro hclear key' hr
    exact hb.expands_iff hclear hr
  · intro m' fuel t' ht' hclear
    refine exists_isPart_of_expands ht ht' fun key' hexp => ?_
    exact hb.expands_of_expands (isBounded_of_tree? ht') hclear hexp
  · intro fuel t' ht'
    refine exists_isPart_of_expands ht ht' fun key' hexp => ?_
    obtain ⟨hr, n, -, hhops⟩ := hb.hops key' hexp
    exact expands_of_met ht' hhops.met hr

/-- The last function gets by a long way, and next by a short one, what the second
    has from the first. -/
def detour : Wiring where
  feeder
    | ⟨1, 0⟩ => some ⟨0, 0⟩
    | ⟨2, 0⟩ => some ⟨1, 0⟩
    | ⟨3, 0⟩ => some ⟨2, 0⟩
    | ⟨3, 1⟩ => some ⟨1, 0⟩
    | _ => none
  witness id := if id = 3 then some (.linkAll 2) else some .forked

/-- The short way to the input of the second function. -/
theorem hops_detour : detour.Hops .provenance ⟨Designator.compose [.output 0], 3⟩ 3
    ⟨Designator.compose [.input 0], 1⟩ := by
  have h₁ : detour.Leads .provenance ⟨Designator.compose [.output 0], 3⟩
      ⟨Designator.compose [.input 1], 3⟩ := ⟨_, _, rfl, _, by decide, rfl⟩
  have h₂ : detour.Leads .provenance ⟨Designator.compose [.input 1], 3⟩
      ⟨Designator.compose [.output 0], 1⟩ := ⟨_, _, rfl, _, by decide, rfl⟩
  have h₃ : detour.Leads .provenance ⟨Designator.compose [.output 0], 1⟩
      ⟨Designator.compose [.input 0], 1⟩ := ⟨_, _, rfl, _, by decide, rfl⟩
  exact ((Wiring.Hops.start.step h₁).step h₂).step h₃

/-- The input of the second function is three hops from the output of the last. It
    is expanded with a bound of three, but not with a bound of four. -/
theorem detour_not_expands :
    (tree? {} 12 detour .provenance (Designator.compose [.output 0]) 3).isSome ∧
    detour.rule .provenance ⟨Designator.compose [.input 0], 1⟩ ≠ none ∧
    detour.Hops .provenance ⟨Designator.compose [.output 0], 3⟩ 3
      ⟨Designator.compose [.input 0], 1⟩ ∧
    ∃ t t', tree? ⟨some 3⟩ 5 detour .provenance (Designator.compose [.output 0]) 3 = some t ∧
      tree? ⟨some 4⟩ 6 detour .provenance (Designator.compose [.output 0]) 3 = some t' ∧
      ¬t'.Expands ⟨Designator.compose [.input 0], 1⟩ ∧ ∀ φ, ¬t.IsPart t' φ := by
  have h : (tree? ⟨some 3⟩ 5 detour .provenance (Designator.compose [.output 0]) 3).any
      (·.Expands ⟨Designator.compose [.input 0], 1⟩) = true := by decide +kernel
  have h' : (tree? ⟨some 4⟩ 6 detour .provenance (Designator.compose [.output 0]) 3).any
      (¬·.Expands ⟨Designator.compose [.input 0], 1⟩) = true := by decide +kernel
  obtain ⟨t, ht, hexp⟩ := (Option.any_eq_true _ _).1 h
  obtain ⟨t', ht', hexp'⟩ := (Option.any_eq_true _ _).1 h'
  have hexp := of_decide_eq_true hexp
  have hexp' := of_decide_eq_true hexp'
  refine ⟨by decide +kernel, nofun, hops_detour, t, t', ht, ht', hexp', ?_⟩
  intro φ hpart
  exact hexp' (hpart.expands hexp)

end Tracer

end Lineage
