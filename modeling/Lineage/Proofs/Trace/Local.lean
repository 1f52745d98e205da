import Lineage.Proofs.Trace.Fuel

/-!
# What a trace looks at

Of how functions are connected, a trace looks at nothing but what explains the
parts that it meets. So where two wirings explain these alike, traces are the
same, node by node, and so are the depths at which they stop and the fuel they
take (`tree?_congr`).
-/

namespace Lineage.Tracer

variable {w w' : Wiring} {query : Query} {tracer : Tracer} {key key' : ObjectKey} {t t' : Tracing}
  {k : Keeper} {node : NodeId} {nodes : List NodeId} {fuel depth : Nat}

/-- What is attached to a node is what explains its part. -/
theorem explain_congr (hk : k.kind? node = some (.object key'))
    (h : w.rule query key' = w'.rule query key') :
    explain w query node k = explain w' query node k := by
  rw [explain_eq hk, explain_eq hk, h]

theorem forEach_congr {step step' : NodeId → Tracing → Option Tracing} {P : Tracing → Prop}
    (hstep : ∀ node t, P t → t.IsObject node → step node t = step' node t ∧
      ∀ t', step node t = some t' → P t' ∧ t.keeper ≤ t'.keeper)
    (ht : P t) (hnodes : ∀ node ∈ nodes, t.IsObject node) :
    forEach step nodes t = forEach step' nodes t := by
  induction nodes generalizing t with
  | nil => rfl
  | cons node nodes ih =>
    obtain ⟨heq, hnext⟩ := hstep node t ht (hnodes node List.mem_cons_self)
    rw [forEach, forEach, ← heq]
    cases h : step node t with
    | none => rfl
    | some t₁ =>
      obtain ⟨ht₁, hle⟩ := hnext t₁ h
      exact ih ht₁ fun id hid => (hnodes id (List.mem_cons_of_mem _ hid)).mono hle

/-- Nodes are expanded alike where the parts that are met are explained alike. -/
theorem expand_congr (h : ∀ key', w.Met query key key' → w.rule query key' = w'.rule query key')
    (ht : Grown w query key t) (hnode : t.IsObject node) :
    expand tracer w query fuel depth node t = expand tracer w' query fuel depth node t := by
  induction fuel generalizing depth node t with
  | zero => rfl
  | succ fuel ih =>
    rw [expand, expand]
    split
    · rfl
    · next hn =>
      obtain ⟨key', hk⟩ := hnode
      have hs : Step w query t _ := .expand hk fun hm => hn (.inr hm)
      rw [← explain_congr hk (h key' (ht.met node key' hk))]
      refine forEach_congr (P := Grown w query key) (fun node t ht hnode => ⟨ih ht hnode, ?_⟩)
        (ht.step hs) fun _ => object_of_mem_leaves hk
      intro t' h
      have hrun := expand_run hnode h
      exact ⟨ht.run hrun, hrun.le.1⟩

/-- Traces are the same where the parts that are met are explained alike. -/
theorem tree?_congr {d : Designator} {root : FunctionId}
    (h : ∀ key', w.Met query ⟨d, root⟩ key' → w.rule query key' = w'.rule query key') :
    tree? tracer fuel w query d root = tree? tracer fuel w' query d root := by
  rw [tree?_eq, tree?_eq, expand_congr h grown_start ⟨_, Keeper.kind?_keep_empty⟩]

end Lineage.Tracer
