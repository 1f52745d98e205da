import Lineage.Proofs.Trace.Rule

/-!
# Traces under way

A trace explains one part after another (`Step`). Whatever the order, each moment
satisfies `Grown`: a node that has been expanded shows what explains it, and
nothing has been added to it since; one that has not has no links. So the result
does not depend on how often a node was reached, nor by which branch.

* `Grown.step` and `Grown.run`: steps keep the invariant;
* `expand_run`: expanding a node is a run;
* `expand_waits`: without a bound on the depth, nothing that was met is left
  unexpanded.
-/

namespace Lineage

/-- The node `parent` alone links to a node, and to nothing else. -/
structure Keeper.Joined (k : Keeper) (id parent : NodeId) : Prop where
  object : ∃ key, k.kind? parent = some (.object key)
  children : k.children parent = [⟨id, .exact⟩]
  eq_parent : ∀ other, ∀ e ∈ k.children other, e.target = id → other = parent

namespace Tracer

/-- A node that stands for a part, and has not been expanded, is explained. -/
inductive Step (w : Wiring) (query : Query) (t : Tracing) : Tracing → Prop where
  | expand {node : NodeId} {key : ObjectKey} (hk : t.keeper.kind? node = some (.object key))
    (hn : node ∉ t.expanded) :
    Step w query t ⟨(explain w query node t.keeper).1, node :: t.expanded⟩

/-- Several steps. -/
abbrev Run (w : Wiring) (query : Query) : Tracing → Tracing → Prop :=
  Relation.ReflTransGen (Step w query)

/-- What holds of a trace of the part `key` at every moment. -/
structure Grown (w : Wiring) (query : Query) (key : ObjectKey) (t : Tracing) : Prop where
  root : t.keeper.kind? 0 = some (.object key)
  unique : t.keeper.Unique
  nodup : t.expanded.Nodup
  object : ∀ id ∈ t.expanded, ∃ key, t.keeper.kind? id = some (.object key)
  /-- A node that has been expanded shows what explains it. -/
  obeys : ∀ id key, t.keeper.kind? id = some (.object key) → id ∈ t.expanded →
    t.keeper.Obeys id (w.rule query key)
  /-- A node that has not has no links. -/
  bare : ∀ id key, t.keeper.kind? id = some (.object key) → id ∉ t.expanded →
    t.keeper.children id = []
  /-- AND and OR nodes have one parent. -/
  joined : ∀ id kind, t.keeper.kind? id = some kind → (∀ key, kind ≠ .object key) →
    ∃ parent, t.keeper.Joined id parent
  met : ∀ id key', t.keeper.kind? id = some (.object key') → w.Met query key key'
  linked : ∀ id kind, t.keeper.kind? id = some kind →
    Relation.ReflTransGen t.keeper.Linked 0 id

variable {w : Wiring} {query : Query} {key key' : ObjectKey} {t t' : Tracing} {id node : NodeId}
  {kind : NodeKind} {subject : FunctionId} {o : Outline}

/-- A trace begins with the part alone. -/
theorem grown_start : Grown w query key ⟨(Keeper.empty.keep key).1, []⟩ where
  root := Keeper.kind?_keep_empty
  unique := Keeper.unique_empty.keep
  nodup := List.nodup_nil
  object _ h := absurd h List.not_mem_nil
  obeys _ _ _ h := absurd h List.not_mem_nil
  bare _ _ _ _ := Keeper.children_keep
  joined id kind hk hne := by
    rcases Keeper.kind?_keep hk with hk | ⟨-, rfl⟩
    · exact absurd hk nofun
    · exact absurd rfl (hne key)
  met id key' hk := by
    rcases Keeper.kind?_keep hk with hk | ⟨-, hk⟩
    · exact absurd hk nofun
    · exact NodeKind.object.inj hk ▸ .refl
  linked id kind hk := by
    have hid := Keeper.lt_size_of_kind? hk
    rw [Keeper.size_keep_empty] at hid
    exact Nat.lt_one_iff.1 hid ▸ .refl

namespace Grown

/-- A node with a link has been expanded. -/
theorem mem_expanded (h : Grown w query key t) (hk : t.keeper.kind? id = some (.object key'))
    {e : Edge} (he : e ∈ t.keeper.children id) : id ∈ t.expanded := by
  by_contra hn
  rw [h.bare id key' hk hn] at he
  exact absurd he List.not_mem_nil

/-- A node with a link shows an outline. -/
theorem exists_shows (h : Grown w query key t) (hk : t.keeper.kind? id = some (.object key'))
    {e : Edge} (he : e ∈ t.keeper.children id) :
    ∃ subject o, w.rule query key' = some (subject, o) ∧ t.keeper.Shows subject id o := by
  have ho := h.obeys id key' hk (h.mem_expanded hk he)
  cases hr : w.rule query key' with
  | none =>
    rw [hr] at ho
    have hc : t.keeper.children id = [] := ho
    rw [hc] at he
    exact absurd he List.not_mem_nil
  | some r => exact ⟨r.1, r.2, rfl, by rw [hr] at ho; exact ho⟩

/-- The parts that an AND or OR node joins are those of an outline that its
    parent shows. -/
theorem exists_junction (h : Grown w query key t) (hk : t.keeper.kind? id = some kind)
    (hne : ∀ key, kind ≠ .object key) : ∃ parent key' subject j ds,
      t.keeper.Joined id parent ∧ t.keeper.kind? parent = some (.object key') ∧
      w.rule query key' = some (subject, .junction j ds) ∧ kind = j.kind ∧
      t.keeper.Showing subject id .exact ds := by
  obtain ⟨parent, hj⟩ := h.joined id kind hk hne
  obtain ⟨key', hp⟩ := hj.object
  have he : ⟨id, .exact⟩ ∈ t.keeper.children parent := hj.children ▸ List.mem_cons_self
  obtain ⟨subject, o, hr, hs⟩ := h.exists_shows hp he
  obtain ⟨j, ds, rfl, hkind, hs⟩ := hs.eq_junction hj.children hk hne
  exact ⟨parent, key', subject, j, ds, hj, hp, hr, hkind, hs⟩

/-- Links lead to nodes. -/
theorem exists_target (h : Grown w query key t) {e : Edge} (he : e ∈ t.keeper.children id) :
    ∃ kind, t.keeper.kind? e.target = some kind := by
  obtain ⟨kind, hk⟩ := Keeper.exists_kind? (Keeper.lt_size_of_mem_children he)
  rcases kind.object_or with ⟨key', rfl⟩ | hne
  · obtain ⟨subject, o, -, hs⟩ := h.exists_shows hk he
    cases o with
    | link quality d =>
      obtain ⟨child, hc, hchild⟩ := hs
      rw [hc, List.mem_singleton] at he
      exact he ▸ ⟨_, hchild⟩
    | junction j ds =>
      obtain ⟨middle, hc, hmiddle, -⟩ := hs
      rw [hc, List.mem_singleton] at he
      exact he ▸ ⟨_, hmiddle⟩
  · obtain ⟨_, _, _, _, _, -, -, -, -, hs⟩ := h.exists_junction hk hne
    obtain ⟨d, -, hd, -⟩ := hs.exists_part he
    exact ⟨_, hd⟩

theorem target_lt (h : Grown w query key t) {e : Edge} (he : e ∈ t.keeper.children id) :
    e.target < t.keeper.size := by
  obtain ⟨kind, hk⟩ := h.exists_target he
  exact Keeper.lt_size_of_kind? hk

theorem cons_expanded {P : NodeId → Prop} (hp : P node) (h : ∀ id ∈ t.expanded, P id) :
    ∀ id ∈ node :: t.expanded, P id := fun id hid =>
  (List.mem_cons.1 hid).elim (fun he => he ▸ hp) (h id)

/-- Nothing is attached to a node that the rule does not explain. -/
theorem step_of_no_rule (h : Grown w query key t)
    (hk : t.keeper.kind? node = some (.object key')) (hn : node ∉ t.expanded)
    (hr : w.rule query key' = none) : Grown w query key ⟨t.keeper, node :: t.expanded⟩ where
  root := h.root
  unique := h.unique
  nodup := List.nodup_cons.2 ⟨hn, h.nodup⟩
  object := cons_expanded ⟨key', hk⟩ h.object
  obeys id key'' hk' hid := by
    rcases List.mem_cons.1 hid with rfl | hid
    · obtain rfl := NodeKind.object.inj (Option.some.inj (hk.symm.trans hk'))
      exact hr ▸ h.bare id key' hk hn
    · exact h.obeys id key'' hk' hid
  bare id key'' hk' hid := h.bare id key'' hk' fun hm => hid (List.mem_cons_of_mem _ hm)
  joined := h.joined
  met := h.met
  linked := h.linked

/-- An AND or OR node that was there keeps its one parent, and a new one has the
    node that is explained. -/
theorem joined_of_drawn (h : Grown w query key t)
    (hk : t.keeper.kind? node = some (.object key')) (hn : node ∉ t.expanded) {k : Keeper}
    {leaves : List NodeId} (hd : t.keeper.Drawn k subject node o leaves)
    (hs : k.Shows subject node o) (hid : k.kind? id = some kind) (hne : ∀ key, kind ≠ .object key) :
    ∃ parent, k.Joined id parent := by
  have hbare : t.keeper.children node = [] := h.bare node key' hk hn
  have hpart {e : Edge} (he : e.target = id) : ¬∃ key, k.kind? e.target = some (.object key) := by
    rintro ⟨key'', hk''⟩
    rw [he, hid] at hk''
    exact hne _ (Option.some.inj hk'')
  rcases Nat.lt_or_ge id t.keeper.size with hlt | hge
  · -- The node was there, and no new link leads to it.
    rw [Keeper.kind?_of_lt hd.le hlt] at hid
    obtain ⟨parent, ⟨key'', hp⟩, hc, heq⟩ := h.joined id kind hid hne
    have hparent : parent ≠ node := fun he => by
      rw [he, hbare] at hc
      exact absurd hc nofun
    refine ⟨parent, ⟨key'', hd.le _ _ hp⟩, ?_, fun other e he hid => ?_⟩
    · rw [hd.frame parent (Keeper.lt_size_of_kind? hp) hparent, hc]
    · rcases hd.link_cases hs hbare he with ⟨-, -, he⟩ | ⟨-, hge⟩ | hobject
      · exact heq other e he hid
      · exact absurd (hid ▸ hlt) (Nat.not_lt.2 hge)
      · exact absurd hobject (hpart hid)
  · -- The node is new, so no old link leads to it.
    rcases hd.fresh id kind hid hge with ⟨-, -, d, -, rfl⟩ | ⟨hc, -⟩
    · exact absurd rfl (hne _)
    · rw [hbare] at hc
      refine ⟨node, ⟨key', hd.le _ _ hk⟩, hc, fun other e he hid => ?_⟩
      rcases hd.link_cases hs hbare he with ⟨-, -, he⟩ | ⟨hother, -⟩ | hobject
      · exact absurd (hid ▸ h.target_lt he) (Nat.not_lt.2 hge)
      · exact hother
      · exact absurd hobject (hpart hid)

/-- The outline that explains a node is attached to it. -/
theorem step_of_rule (h : Grown w query key t)
    (hk : t.keeper.kind? node = some (.object key')) (hn : node ∉ t.expanded)
    (hr : w.rule query key' = some (subject, o)) :
    Grown w query key ⟨(o.attachTo subject node t.keeper).1, node :: t.expanded⟩ := by
  have hlt : node < t.keeper.size := Keeper.lt_size_of_kind? hk
  have hbare : t.keeper.children node = [] := h.bare node key' hk hn
  have hd := Keeper.drawn_attachTo (o := o) subject hlt
  generalize (o.attachTo subject node t.keeper).1 = k at hd
  have hs : k.Shows subject node o := hd.shows h.unique hlt hbare
  have hold {id : NodeId} (hid : id < t.keeper.size) {kind : NodeKind}
      (hkind : k.kind? id = some kind) : t.keeper.kind? id = some kind := by
    rwa [Keeper.kind?_of_lt hd.le hid] at hkind
  constructor
  case root => exact hd.le _ _ h.root
  case unique => exact hd.unique h.unique
  case nodup => exact List.nodup_cons.2 ⟨hn, h.nodup⟩
  case object =>
    refine cons_expanded ⟨key', hd.le _ _ hk⟩ fun id hid => ?_
    obtain ⟨key'', hk''⟩ := h.object id hid
    exact ⟨key'', hd.le _ _ hk''⟩
  case obeys =>
    -- The node that is explained was bare; those that were explained before keep
    -- what they show, as nothing is attached to them.
    intro id key'' hkind hid
    rcases List.mem_cons.1 hid with rfl | hid
    · obtain rfl := NodeKind.object.inj (Option.some.inj (hkind.symm.trans (hd.le _ _ hk)))
      rw [hr]
      exact hs
    · obtain ⟨_, hk''⟩ := h.object id hid
      have hid' := Keeper.lt_size_of_kind? hk''
      have hne : id ≠ node := fun he => hn (he ▸ hid)
      exact (h.obeys id key'' (hold hid' hkind) hid).frame hd.le hid' hne hk hd.frame
  case bare =>
    intro id key'' hkind hid
    obtain ⟨hne, hid⟩ := not_or.1 (fun hm => hid (List.mem_cons.2 hm))
    rcases Nat.lt_or_ge id t.keeper.size with hid' | hge
    · exact (hd.frame id hid' hne).trans (h.bare id key'' (hold hid' hkind) hid)
    · rcases hd.fresh id _ hkind hge with ⟨-, hc, -⟩ | ⟨-, hne⟩
      · exact hc
      · exact absurd rfl (hne key'')
  case joined => exact fun id kind hkind hne => h.joined_of_drawn hk hn hd hs hkind hne
  case met =>
    -- The explanation leads to the new parts, and the others had been met.
    intro id key'' hkind
    rcases Nat.lt_or_ge id t.keeper.size with hid | hge
    · exact h.met id key'' (hold hid hkind)
    · rcases hd.fresh id _ hkind hge with ⟨-, -, d, hmem, heq⟩ | ⟨-, hne⟩
      · exact (h.met node key' hk).tail ⟨subject, o, hr, d, hmem, NodeKind.object.inj heq⟩
      · exact absurd rfl (hne key'')
  case linked =>
    intro id kind hkind
    -- Links from the node that is explained are new, and the others were there.
    have hmono {i j : NodeId} (hij : t.keeper.Linked i j) : k.Linked i j := by
      obtain ⟨e, he, rfl⟩ := hij
      have hi : i ≠ node := fun hi => absurd (hbare ▸ hi ▸ he) List.not_mem_nil
      exact ⟨e, hd.frame i (Keeper.lt_size_of_mem_children he) hi ▸ he, rfl⟩
    rcases Nat.lt_or_ge id t.keeper.size with hid | hge
    · exact Relation.ReflTransGen.mono (fun _ _ => hmono) _ _ (h.linked id kind (hold hid hkind))
    · exact (Relation.ReflTransGen.mono (fun _ _ => hmono) _ _ (h.linked node _ hk)).trans
        (hd.reachable hs (hd.unique h.unique) hkind hge)

/-- Steps keep the invariant. -/
theorem step (h : Grown w query key t) (hs : Step w query t t') : Grown w query key t' := by
  cases hs with
  | @expand node key' hk hn =>
    cases hr : w.rule query key' with
    | none =>
      rw [explain_of_no_rule hk hr]
      exact h.step_of_no_rule hk hn hr
    | some r =>
      rw [explain_of_rule hk hr]
      exact h.step_of_rule hk hn hr

theorem run (h : Grown w query key t) (hr : Run w query t t') : Grown w query key t' := by
  induction hr with
  | refl => exact h
  | tail _ hs ih => exact ih.step hs

end Grown

/-! ### Runs -/

/-- The nodes that an explanation ends in stand for parts. -/
theorem object_of_mem_leaves (hk : t.keeper.kind? node = some (.object key))
    (hid : id ∈ (explain w query node t.keeper).2) :
    ∃ key', (explain w query node t.keeper).1.kind? id = some (.object key') := by
  cases hr : w.rule query key with
  | none =>
    rw [explain_of_no_rule hk hr] at hid
    exact absurd hid List.not_mem_nil
  | some r =>
    rw [explain_of_rule hk hr] at hid ⊢
    obtain ⟨d, -, hf⟩ := (Keeper.drawn_attachTo r.1 (Keeper.lt_size_of_kind? hk)).mem_leaves hid
    exact ⟨_, Keeper.kind?_of_find? hf⟩

/-- A part that is new is one that the explanation ends in. -/
theorem mem_leaves_of_object (hk : t.keeper.kind? node = some (.object key))
    (hid : (explain w query node t.keeper).1.kind? id = some (.object key')) :
    t.keeper.kind? id = some (.object key') ∨ id ∈ (explain w query node t.keeper).2 := by
  cases hr : w.rule query key with
  | none =>
    rw [explain_of_no_rule hk hr] at hid
    exact .inl hid
  | some r =>
    rw [explain_of_rule hk hr] at hid ⊢
    have hd := Keeper.drawn_attachTo (o := r.2) r.1 (Keeper.lt_size_of_kind? hk)
    rcases Nat.lt_or_ge id t.keeper.size with hlt | hge
    · rw [Keeper.kind?_of_lt hd.le hlt] at hid
      exact .inl hid
    · rcases hd.fresh id _ hid hge with ⟨hmem, -⟩ | ⟨-, hne⟩
      · exact .inr hmem
      · exact absurd rfl (hne key')

theorem le_explain (hk : t.keeper.kind? node = some (.object key)) :
    t.keeper ≤ (explain w query node t.keeper).1 := by
  cases hr : w.rule query key with
  | none => rw [explain_of_no_rule hk hr]
  | some r =>
    rw [explain_of_rule hk hr]
    exact (Keeper.drawn_attachTo r.1 (Keeper.lt_size_of_kind? hk)).le

/-- Steps add nodes and expand nodes. -/
theorem Step.le (h : Step w query t t') : t.keeper ≤ t'.keeper ∧ t.expanded <:+ t'.expanded := by
  cases h with
  | expand hk hn => exact ⟨le_explain hk, List.suffix_cons _ _⟩

theorem Run.le (h : Run w query t t') : t.keeper ≤ t'.keeper ∧ t.expanded <:+ t'.expanded := by
  induction h with
  | refl => exact ⟨le_refl _, List.suffix_refl _⟩
  | tail _ hs ih => exact ⟨ih.1.trans hs.le.1, ih.2.trans hs.le.2⟩

/-- A node stands for a part. -/
def Tracing.IsObject (t : Tracing) (id : NodeId) : Prop :=
  ∃ key, t.keeper.kind? id = some (.object key)

theorem Tracing.IsObject.mono (h : t.IsObject id) (hle : t.keeper ≤ t'.keeper) :
    t'.IsObject id := by
  obtain ⟨key, hk⟩ := h
  exact ⟨key, hle _ _ hk⟩

variable {step : NodeId → Tracing → Option Tracing} {nodes : List NodeId} {tracer : Tracer}
  {fuel depth : Nat}

/-- What is done for several nodes in turn is a run, if it is for each. -/
theorem forEach_run
    (hstep : ∀ node t t', t.IsObject node → step node t = some t' → Run w query t t')
    (hnodes : ∀ node ∈ nodes, t.IsObject node) (h : forEach step nodes t = some t') :
    Run w query t t' := by
  induction nodes generalizing t with
  | nil => exact Option.some.inj h ▸ .refl
  | cons node nodes ih =>
    obtain ⟨t₁, h₁, h⟩ := Option.bind_eq_some_iff.1 h
    have hr := hstep node t t₁ (hnodes node List.mem_cons_self) h₁
    exact hr.trans (ih (fun id hid => (hnodes id (List.mem_cons_of_mem _ hid)).mono hr.le.1) h)

theorem expand_of_not_mem (hdepth : tracer.maxDepth = none) (hn : node ∉ t.expanded) :
    expand tracer w query (fuel + 1) depth node t =
      forEach (expand tracer w query fuel (depth + 1)) (explain w query node t.keeper).2
        ⟨(explain w query node t.keeper).1, node :: t.expanded⟩ := by
  rw [expand, if_neg (by simp [hdepth, hn])]

theorem expand_of_mem (hn : node ∈ t.expanded) :
    expand tracer w query (fuel + 1) depth node t = some t := by
  rw [expand, if_pos (.inr hn)]

/-- To expand a node is to run. -/
theorem expand_run (hnode : t.IsObject node)
    (h : expand tracer w query fuel depth node t = some t') : Run w query t t' := by
  induction fuel generalizing depth node t t' with
  | zero => exact absurd h nofun
  | succ fuel ih =>
    rw [expand] at h
    split at h
    · exact Option.some.inj h ▸ .refl
    · next hn =>
      obtain ⟨key, hk⟩ := hnode
      -- The node is explained first, and then what its explanation ends in.
      have hs : Step w query t _ := .expand hk fun hm => hn (.inr hm)
      exact (Relation.ReflTransGen.single hs).trans <|
        forEach_run (fun _ _ _ => ih) (fun _ => object_of_mem_leaves hk) h

/-! ### Traces of any depth -/

/-- A node stands for a part and has not been expanded. -/
def Tracing.Waits (t : Tracing) (id : NodeId) : Prop := t.IsObject id ∧ id ∉ t.expanded

theorem forEach_waits
    (hstep : ∀ node t t', t.IsObject node → step node t = some t' →
      Run w query t t' ∧ (t'.Waits id → t.Waits id ∧ id ≠ node))
    (hnodes : ∀ node ∈ nodes, t.IsObject node) (h : forEach step nodes t = some t')
    (hid : t'.Waits id) : t.Waits id ∧ id ∉ nodes := by
  induction nodes generalizing t with
  | nil => exact ⟨Option.some.inj h ▸ hid, List.not_mem_nil⟩
  | cons node nodes ih =>
    obtain ⟨t₁, h₁, h⟩ := Option.bind_eq_some_iff.1 h
    obtain ⟨hr, hwaits⟩ := hstep node t t₁ (hnodes node List.mem_cons_self) h₁
    obtain ⟨hid₁, hn⟩ :=
      ih (fun id hid => (hnodes id (List.mem_cons_of_mem _ hid)).mono hr.le.1) h
    exact ⟨(hwaits hid₁).1, fun hm => (List.mem_cons.1 hm).elim (hwaits hid₁).2 hn⟩

/-- If no depth is too deep, what waits after a node was expanded has waited
    before. -/
theorem expand_waits (hdepth : tracer.maxDepth = none) (hnode : t.IsObject node)
    (h : expand tracer w query fuel depth node t = some t') (hid : t'.Waits id) :
    t.Waits id ∧ id ≠ node := by
  induction fuel generalizing depth node t t' with
  | zero => exact absurd h nofun
  | succ fuel ih =>
    by_cases hn : node ∈ t.expanded
    · rw [expand_of_mem hn] at h
      obtain rfl := Option.some.inj h
      exact ⟨hid, fun he => hid.2 (he ▸ hn)⟩
    · rw [expand_of_not_mem hdepth hn] at h
      obtain ⟨key, hk⟩ := hnode
      -- What waits in the end waited after the node was explained, and is none of
      -- the parts that the explanation ends in; so it had been there before.
      obtain ⟨⟨⟨key', hk'⟩, hexpanded⟩, hleaves⟩ := forEach_waits
        (fun _ _ _ hn h => ⟨expand_run hn h, ih hn h⟩) (fun _ => object_of_mem_leaves hk) h hid
      obtain ⟨hne, hexpanded⟩ := not_or.1 fun hm => hexpanded (List.mem_cons.2 hm)
      refine ⟨⟨⟨key', ?_⟩, hexpanded⟩, hne⟩
      exact (mem_leaves_of_object hk hk').resolve_right hleaves

end Tracer

end Lineage
