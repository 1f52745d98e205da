import Lineage.Proofs.Circuit.Evaluation
import Lineage.Proofs.Designator.Within
import Lineage.Proofs.Trace.Fuel
import Lineage.Proofs.Outline.Room

/-!
# How traces grow

Whatever its wires, a circuit has finitely many functions, and its witnesses keep
the numbers in designators within some bound. So a trace can go on for ever in one
way only: by meeting longer and longer designators (`exists_tree_iff_length_le`).

Where no quantifier has been evaluated, they do not grow, and every trace ends
(`exists_tree_of_unquantified`). To expand each node once is not enough where one
has. A quantifier explains its output by parts of the elements of its input, one
step longer; if the output is wired back to the input, the trace never meets the
same part twice (`ouroboros_endless`).
-/

namespace Lineage

variable {b : Nat} {d d' : Designator} {p : Part} {r : Range}

/-! ### Bounds of witnesses -/

/-- A range of the input is within words and within the text. -/
theorem Found.within_inputRange {f : Found} (h : f.inputRange? p = some r)
    (hword : 9223372036854775808 ≤ b) (hlength : f.length ≤ b) : (Part.range r).Within b := by
  rcases Found.of_inputRange? h with ⟨_, -, -, -, ⟨hlow, -⟩, -, hhigh⟩ | ⟨-, hstart, hstop⟩
  · exact ⟨by omega, by omega⟩
  · exact ⟨by omega, by omega⟩

namespace Witness

/-- The parts by which the witness explains others are within the bound if those
    are. -/
def Keeps (b : Nat) (w : Witness) : Prop :=
  ∀ query d, d.Within b → ∀ d' ∈ (w.outline query d).parts, d'.Within b

theorem within_elementPart {n : Nat} (hn : n ≤ b) (hd : d.Within b) : (elementPart n d).Within b :=
  hd.nest fun p hp => by
    rcases List.mem_cons.1 hp with rfl | hp
    · exact Nat.zero_le b
    · obtain rfl := List.mem_singleton.1 hp
      exact hn

theorem within_moveToElement {n : Nat} (hn : n ≤ b) (hd : d.Within b) :
    (moveToElement n d).Within b := by
  rw [moveToElement]
  split
  · exact within_elementPart hn hd.rest
  · exact within_elementPart hn hd

theorem within_allInputs {arity : Nat} (h : arity ≤ b)
    (hd : d' ∈ (Outline.allInputs arity).parts) : d'.Within b := by
  obtain ⟨i, hi, rfl⟩ := mem_allInputs_iff.1 hd
  refine Designator.within_compose fun p hp => ?_
  obtain rfl := List.mem_singleton.1 hp
  exact Nat.le_of_lt (Nat.lt_of_lt_of_le hi h)

mutual

/-- Every witness keeps the numbers within some bound, and within all greater
    ones. -/
theorem exists_keeps : ∀ w : Witness, ∃ b₀, ∀ b ≥ b₀, w.Keeps b
  | linkAll arity => ⟨arity, fun b hb query d _ d' hd' => by
      rw [outline] at hd'
      exact within_allInputs hb hd'⟩
  | forked => ⟨0, fun b _ query d hd d' hd' => by
      rw [outline] at hd'
      obtain rfl := List.mem_singleton.1 hd'
      exact hd.nest fun p hp => List.mem_singleton.1 hp ▸ Nat.zero_le b⟩
  | quantified length positions => by
    obtain ⟨b₀, h₀⟩ := exists_bound (P := fun b n => n ≤ b) (fun _ _ _ h hn => hn.trans h)
      positions fun n _ => ⟨n, Nat.le_refl n⟩
    refine ⟨max b₀ length, fun b hb query d hd d' hd' => ?_⟩
    obtain ⟨n, hn, rfl⟩ := mem_outline_quantified hd'
    rcases hn with hn | hn
    · exact within_elementPart (by omega) hd
    · exact within_elementPart ((h₀ n hn).trans (by omega)) hd
  | found place => by
    refine ⟨max 9223372036854775808 place.length, fun b hb query d hd d' hd' => ?_⟩
    rcases mem_outline_found hd' with ⟨r, hr, rfl⟩ | hd'
    · refine hd.rest.nest fun p hp => ?_
      rcases List.mem_cons.1 hp with rfl | hp
      · exact Nat.zero_le b
      · obtain rfl := List.mem_singleton.1 hp
        exact Found.within_inputRange hr (by omega) (by omega)
    · exact within_allInputs (by omega) hd'
  | applied elements => by
    obtain ⟨b₀, h₀⟩ := exists_keeps_list elements
    refine ⟨max b₀ 1, fun b hb query d hd d' hd' => ?_⟩
    rcases mem_outline_applied hd' with ⟨n, w, e, hn, hw, he, rfl⟩ | hd'
    · have hle : n ≤ b := by
        have := hd.head
        rw [hn] at this
        exact this
      exact within_moveToElement hle (h₀ b (by omega) w hw query d.rest hd.rest e he)
    · exact within_allInputs (by omega) hd'

theorem exists_keeps_list : ∀ ws : List Witness, ∃ b₀, ∀ b ≥ b₀, ∀ w ∈ ws, w.Keeps b
  | [] => ⟨0, fun _ _ _ h => absurd h List.not_mem_nil⟩
  | w :: ws => by
    obtain ⟨b₁, h₁⟩ := exists_keeps w
    obtain ⟨b₂, h₂⟩ := exists_keeps_list ws
    refine ⟨max b₁ b₂, fun b hb w' hw' => ?_⟩
    rcases List.mem_cons.1 hw' with rfl | hw'
    · exact h₁ b (by omega)
    · exact h₂ b (by omega) w' hw'

end

end Witness

/-! ### Bounds of circuits -/

namespace Circuit

variable {c : Circuit} {query : Query} {root : FunctionId} {key key' : ObjectKey}

/-- The functions that feed others. -/
def feeders (c : Circuit) : List FunctionId := c.sources.wires.map fun wire => wire.2.function

theorem mem_wires_of_feeder? {input output : Pin} (h : c.feeder? input = some output) :
    (input, output) ∈ c.sources.wires := by
  obtain ⟨l₁, l₂, hl, -⟩ := List.lookup_eq_some_iff.1 h
  rw [hl]
  exact List.mem_append_right l₁ List.mem_cons_self

theorem mem_feeders {input output : Pin} (h : c.feeder? input = some output) :
    output.function ∈ c.feeders :=
  List.mem_map.2 ⟨_, mem_wires_of_feeder? h, rfl⟩

/-- A bound that the witnesses of a circuit keep, and that no output pin of a wire
    exceeds. -/
structure Bound (c : Circuit) (b : Nat) : Prop where
  keeps : ∀ id w, c.witness? id = some w → w.Keeps b
  output_le : ∀ input output, c.feeder? input = some output → output.number ≤ b

/-- Every great enough number is such a bound. -/
theorem exists_bound_ge (c : Circuit) : ∃ b₀, ∀ b ≥ b₀, c.Bound b := by
  obtain ⟨b₁, h₁⟩ := Witness.exists_keeps_list (c.instances.toList.filterMap Instance.last)
  obtain ⟨b₂, h₂⟩ := exists_bound
    (P := fun b (wire : Pin × Pin) => wire.2.number ≤ b)
    (fun _ _ _ h hwire => hwire.trans h) c.sources.wires fun wire _ => ⟨_, Nat.le_refl _⟩
  refine ⟨max b₁ b₂, fun b hb => ⟨fun id w hw => ?_, fun input output ho => ?_⟩⟩
  · obtain ⟨i, hi, hlast⟩ := Option.bind_eq_some_iff.1 hw
    refine h₁ b (by omega) w (List.mem_filterMap.2 ⟨i, ?_, hlast⟩)
    exact Array.mem_toList_iff.2 (Array.mem_of_getElem? hi)
  · exact (h₂ _ (mem_wires_of_feeder? ho)).trans (by omega)

/-- What explains a part within the bound is within it, and is a part of the same
    function or of one that feeds others. -/
theorem Bound.of_leads (h : c.Bound b) (hkey : key.designator.Within b)
    (hleads : c.wiring.Leads query key key') : key'.designator.Within b ∧
      (key'.subject = key.subject ∨ key'.subject ∈ c.feeders) := by
  obtain ⟨_, w, -, hw, hd, hsubject⟩ | ⟨_, output, -, ho, rfl⟩ := hleads.cases
  · exact ⟨h.keeps _ w hw query _ hkey.rest _ hd, .inl hsubject⟩
  · refine ⟨hkey.rest.nest fun p hp => ?_, .inr (mem_feeders ho)⟩
    obtain rfl := List.mem_singleton.1 hp
    exact h.output_le _ output ho

theorem Bound.of_met (h : c.Bound b) (hd : d.Within b)
    (hmet : c.wiring.Met query ⟨d, root⟩ key') :
    key'.designator.Within b ∧ key'.subject ∈ root :: c.feeders := by
  induction hmet with
  | refl => exact ⟨hd, List.mem_cons_self⟩
  | tail _ hleads ih =>
    obtain ⟨hwithin, hsubject⟩ := h.of_leads ih.1 hleads
    exact ⟨hwithin, hsubject.elim (fun he => he ▸ ih.2) (List.mem_cons_of_mem root)⟩

/-- Finitely many parts of bounded length can be met. -/
theorem exists_keys (c : Circuit) (query : Query) (d : Designator) (root : FunctionId) (n : Nat) :
    ∃ keys : List ObjectKey, ∀ key', c.wiring.Met query ⟨d, root⟩ key' →
      key'.designator.length ≤ n → key' ∈ keys := by
  obtain ⟨b₁, h₁⟩ := c.exists_bound_ge
  obtain ⟨b₂, h₂⟩ := d.exists_within
  have hfinite := (Designator.finite_within (max b₁ b₂) n).image2 ObjectKey.mk
    (List.finite_toSet (root :: c.feeders))
  refine ⟨hfinite.toFinset.toList, fun key' hmet hlength => ?_⟩
  obtain ⟨hwithin, hsubject⟩ :=
    (h₁ _ (Nat.le_max_left b₁ b₂)).of_met (h₂.mono (Nat.le_max_right b₁ b₂)) hmet
  rw [Finset.mem_toList, Set.Finite.mem_toFinset]
  exact ⟨key'.designator, ⟨hwithin, hlength⟩, key'.subject, hsubject, rfl⟩

theorem exists_tree_of_length_le {n : Nat}
    (h : ∀ key', c.wiring.Met query ⟨d, root⟩ key' → key'.designator.length ≤ n) :
    ∃ n tree, ∀ fuel ≥ n, Tracer.tree? {} fuel c.wiring query d root = some tree := by
  obtain ⟨keys, hkeys⟩ := c.exists_keys query d root n
  obtain ⟨tree, h⟩ := Tracer.exists_tree fun key' hmet => hkeys key' hmet (h key' hmet)
  exact ⟨keys.length + 1, tree, fun fuel hfuel => h fuel hfuel⟩

/-- A trace of any depth in a circuit ends just when the designators it meets do
    not grow without end. -/
theorem exists_tree_iff_length_le (c : Circuit) (query : Query) (d : Designator)
    (root : FunctionId) :
    (∃ n tree, ∀ fuel ≥ n, Tracer.tree? {} fuel c.wiring query d root = some tree) ↔
      ∃ n, ∀ key', c.wiring.Met query ⟨d, root⟩ key' → key'.designator.length ≤ n := by
  constructor
  · rintro ⟨n, tree, h⟩
    obtain ⟨keys, hkeys⟩ := Tracer.exists_tree_iff.1 ⟨n, by rw [h n (Nat.le_refl n)]; rfl⟩
    obtain ⟨m, hm⟩ := exists_bound (P := fun n key => key.designator.length ≤ n)
      (fun _ _ _ h hn => hn.trans h) keys fun key _ => ⟨_, Nat.le_refl _⟩
    exact ⟨m, fun key' hmet => hm key' (hkeys key' hmet)⟩
  · rintro ⟨n, hn⟩
    exact exists_tree_of_length_le hn

/-! ### Circuits without quantifiers -/

/-- What explains a part has no more room than the part. -/
theorem room_le_of_leads (h : ∀ id w, c.witness? id = some w → w.Unquantified)
    (hleads : c.wiring.Leads query key key') : key'.designator.room ≤ key.designator.room := by
  obtain ⟨n, w, ho, hw, hd, -⟩ | ⟨n, output, hi, -, rfl⟩ := hleads.cases
  · calc key'.designator.room
        ≤ key.designator.rest.room + 1 := (h _ w hw).room_le hd
      _ = key.designator.room := (Designator.room_of_head ho Part.output_ne_identity rfl).symm
  · rw [Designator.room_of_head hi Part.input_ne_identity rfl,
      Designator.room_nest_cons Part.output_ne_identity rfl, Designator.nest_nil]

theorem room_le_of_met (h : ∀ id w, c.witness? id = some w → w.Unquantified)
    (hmet : c.wiring.Met query key key') : key'.designator.room ≤ key.designator.room := by
  induction hmet with
  | refl => exact Nat.le_refl _
  | tail _ hleads ih => exact (room_le_of_leads h hleads).trans ih

/-- Whatever its wires, in a circuit where no quantifier has been evaluated all
    traces end. -/
theorem exists_tree_of_unquantified (h : ∀ id w, c.witness? id = some w → w.Unquantified)
    (query : Query) (d : Designator) (root : FunctionId) :
    ∃ n tree, ∀ fuel ≥ n, Tracer.tree? {} fuel c.wiring query d root = some tree :=
  exists_tree_of_length_le fun key' hmet =>
    key'.designator.length_le_room.trans (room_le_of_met h hmet)

/-! ### Endless traces -/

/-- A quantifier over the list of its own output, wired so after it was
    evaluated. -/
def ouroboros : Circuit :=
  (((empty.add (.quantifier .forAll)).1.setSource ⟨0, 0⟩ (.fed (.list [.bool true]))).evaluate
    0).2.setSource ⟨0, 0⟩ (.wire ⟨0, 0⟩)

theorem reachable_ouroboros : ouroboros.Reachable :=
  (((Reachable.empty.add (.quantifier .forAll)).fed (by rfl)).evaluate 0).wire (by rfl) (by rfl)

/-- The first element of the first element and so on, `n` times. -/
def firsts : Nat → Designator
  | 0 => .identity
  | n + 1 => Designator.nest [.element 0] (firsts n)

theorem length_firsts (n : Nat) : (firsts n).length = n := by
  induction n with
  | zero => rfl
  | succ n ih =>
    rw [firsts, Designator.length, Designator.parts_nest, List.length_append]
    exact (Nat.add_comm _ _).trans (congrArg (· + 1) ih)

/-- The output is explained by an element of the input. -/
theorem leads_output (d : Designator) : ouroboros.wiring.Leads query
    ⟨Designator.nest [.output 0] d, 0⟩ ⟨Designator.nest [.input 0, .element 0] d, 0⟩ := by
  refine ⟨0, .junction .and [Witness.elementPart 0 d], ?_, _, List.mem_singleton.2 rfl, rfl⟩
  have hhead : (Designator.nest [.output 0] d).head = .output 0 :=
    Designator.head_nest_cons Part.output_ne_identity
  have hrest : (Designator.nest [.output 0] d).rest = d := by
    rw [Designator.rest_nest_cons Part.output_ne_identity, Designator.nest_nil]
  have hw : ouroboros.wiring.witness 0 = some (.quantified 1 []) := by rfl
  rw [rule_of_output hhead]
  dsimp only
  rw [hw, hrest, Option.map_some, Witness.outline, if_neg fun h => h.2 rfl]
  rfl

/-- The input is explained by the output, with the element of the input. -/
theorem leads_input (d : Designator) : ouroboros.wiring.Leads query
    ⟨Designator.nest [.input 0, .element 0] d, 0⟩
    ⟨Designator.nest [.output 0] (Designator.nest [.element 0] d), 0⟩ := by
  refine ⟨0, .link .exact (Designator.nest [.output 0] (Designator.nest [.element 0] d)), ?_, _,
    List.mem_singleton.2 rfl, rfl⟩
  have hhead : (Designator.nest [.input 0, .element 0] d).head = .input 0 :=
    Designator.head_nest_cons Part.input_ne_identity
  have hrest : (Designator.nest [.input 0, .element 0] d).rest = Designator.nest [.element 0] d :=
    Designator.rest_nest_cons Part.input_ne_identity
  rw [rule_of_input hhead]
  dsimp only
  rw [hrest]
  rfl

theorem met_firsts (n : Nat) : ouroboros.wiring.Met query ⟨Designator.compose [.output 0], 0⟩
    ⟨Designator.nest [.output 0] (firsts n), 0⟩ := by
  induction n with
  | zero => exact .refl
  | succ n ih => exact (ih.tail (leads_output _)).tail (leads_input _)

/-- The trace of the quantifier never ends, whatever is asked. -/
theorem ouroboros_endless : ouroboros.Reachable ∧ ∀ query fuel,
    Tracer.tree? {} fuel ouroboros.wiring query (Designator.compose [.output 0]) 0 = none := by
  refine ⟨reachable_ouroboros, fun query fuel => Option.not_isSome_iff_eq_none.1 fun hsome => ?_⟩
  obtain ⟨keys, hkeys⟩ := Tracer.exists_tree_iff.1 ⟨fuel, hsome⟩
  obtain ⟨n, hn⟩ := exists_bound (P := fun n key => (key : ObjectKey).designator.length ≤ n)
    (fun _ _ _ h hn => hn.trans h) keys fun key _ => ⟨_, Nat.le_refl _⟩
  have hle := hn _ (hkeys _ (met_firsts n))
  rw [Designator.length, Designator.parts_nest, List.length_append] at hle
  have hlength : (firsts n).parts.length = n := length_firsts n
  rw [hlength] at hle
  -- The output of the quantifier comes first, then the `n` elements.
  have hsucc : 1 + n ≤ n := hle
  omega

end Circuit

end Lineage
