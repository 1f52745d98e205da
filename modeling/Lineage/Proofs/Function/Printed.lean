import Lineage.Function.Spec
import Lineage.Pattern.Standard
import Lineage.Proofs.Function.Evaluation
import Lineage.Proofs.Json.Compact

/-!
# Reading printed functions

A function that can be built is read back from what it prints, unless its templates
are nested too deeply for the reader, which then refuses it (`Built.read_print`). Nothing
is lost on the way: the engine compiles the text of a pattern to the same pattern again, and all
else is printed. This holds whatever the engine, and so of every pattern that it accepts.
-/

namespace Lineage

/-! ### Descriptions -/

namespace Spec

variable {s : Spec} {fuel : Nat}

/-- The arities are words. -/
inductive Sized : Spec → Prop where
  | regexFind (pattern : String) : Sized (regexFind pattern)
  | quantifier (q : Quantifier) : Sized (quantifier q)
  | nary (op : Operator) {arity : Nat} (h : Word.Unsigned arity) : Sized (nary op arity)
  | fork {arity : Nat} (h : Word.Unsigned arity) : Sized (fork arity)
  | applyToAll {template : Spec} (h : Sized template) : Sized (applyToAll template)

/-- How many templates stand inside one another. -/
def nesting : Spec → Nat
  | applyToAll template => template.nesting + 1
  | _ => 0

/-- Each template is an object inside the one of the function that applies it. -/
theorem depth_toJson (s : Spec) : s.toJson.depth = s.nesting + 1 := by
  induction s with
  | applyToAll template ih =>
    simp [toJson, nesting, Json.obj, Json.str, Json.depth, Json.depthOfMembers, ih]
  | _ => rfl

theorem Sized.plain_toJson (h : s.Sized) : s.toJson.Plain := by
  induction h with
  | regexFind | quantifier => exact .object (by simp) (by simp [Json.Plain.str])
  | nary _ h | fork h =>
    have harity : (Json.nat _).Plain := .int (i := .ofNat _) h
    exact .object (by simp) (by simpa [Json.Plain.str] using harity)
  | applyToAll h ih => exact .object (by simp) (by simp [Json.Plain.str, ih])

theorem unsigned?_nat {arity : Nat} (h : Word.Unsigned arity) :
    (Json.nat arity).unsigned? = some arity :=
  Word.unsigned?_eq_some_iff.2 ⟨h, rfl⟩

/-- A description is decoded from its printed form, whether it is of a template or not. -/
theorem decode_toJson (h : s.Sized) (hfuel : s.nesting ≤ fuel) (nested : Bool) :
    decode (fuel + 1) nested s.toJson = some s := by
  induction h generalizing fuel nested with
  | regexFind pattern => rfl
  | quantifier q => cases q <;> rfl
  | @nary op arity h =>
    have hfields : fields? nested (nary op arity).toJson =
      some (.nary, [.str op.text, .nat arity]) := rfl
    rw [decode, hfields]
    simp only [Option.bind_eq_bind, Option.bind_some, unsigned?_nat h]
    cases op <;> rfl
  | @fork arity h =>
    have hfields : fields? nested (fork arity).toJson = some (.fork, [.nat arity]) := rfl
    rw [decode, hfields]
    simp only [Option.bind_eq_bind, Option.bind_some, unsigned?_nat h]
    rfl
  | @applyToAll template h ih =>
    -- The template is decoded as one, in which more is accepted.
    rw [nesting] at hfuel
    obtain ⟨fuel, rfl⟩ := Nat.exists_eq_add_one.2 (show 0 < fuel by omega)
    have hfields : fields? nested (applyToAll template).toJson =
      some (.applyToAll, [template.toJson]) := rfl
    rw [decode, hfields]
    simp only [Option.bind_eq_bind, Option.bind_some, ih (Nat.le_of_succ_le_succ hfuel)]
    rfl

/-- What is nested too deeply is not read, and everything else is. -/
theorem read_compact (h : s.Sized) : read s.toJson.compact =
    if s.toJson.depth ≤ Json.maxDepth then .ok s else .error (.read .json) := by
  have hread : Json.read s.toJson.compact = some s.toJson := h.plain_toJson.read_compact
  rw [read, Json.readAs, hread, Option.bind_some, ofJson?, Json.isStrict, h.plain_toJson.isRegular,
    Bool.true_and, decode_toJson h (s.depth_toJson ▸ Nat.le_succ s.nesting)]
  by_cases hdepth : s.toJson.depth ≤ Json.maxDepth <;> simp [hdepth]

theorem exists_fault_of_read {text : String} {e : Error} (h : read text = .error e) :
    ∃ fault, e = .read fault := by
  rw [read, Json.readAs] at h
  split at h
  · exact absurd h nofun
  · exact ⟨_, (Except.error.inj h).symm⟩

end Spec

/-! ### Functions -/

namespace Function

theorem exists_unbuilt (e : Error) : ∃ fault, unbuilt e = .read fault := by
  cases e <;> exact ⟨_, rfl⟩

section Engine

variable [Pattern.Engine] {f : Function}

/-- The functions that can be built; one from elsewhere is none of them. -/
inductive Built : Function → Prop where
  | find {source : String} {pattern : Pattern} (h : Pattern.read source = .ok pattern) :
    Built (find pattern)
  | quantifier (q : Quantifier) : Built (quantifier q)
  | nary (op : Operator) {arity : Nat} (h : Word.Unsigned arity) : Built (nary op arity)
  | fork {arity : Nat} (h : Word.Unsigned arity) : Built (fork arity)
  | overElements {template f : Function} (h : Built template)
    (hf : overElements template = .ok f) : Built f

theorem Built.sized (h : f.Built) : f.spec.Sized := by
  induction h with
  | @find source pattern h => exact .regexFind pattern.source
  | quantifier q => exact .quantifier q
  | nary op h => exact .nary op h
  | fork h => exact .fork h
  | overElements _ hf ih =>
    obtain ⟨-, -, rfl⟩ := overElements_eq_ok_iff.1 hf
    exact .applyToAll ih

/-- A function that was built is built again from its description, by the same checks. -/
theorem Built.build_spec (h : f.Built) : f.spec.build = .ok f := by
  induction h with
  | find h =>
    rw [spec, Spec.build, Pattern.source_of_read h, h]
    rfl
  | quantifier | nary | fork => rfl
  | overElements _ hf ih =>
    obtain ⟨-, -, rfl⟩ := overElements_eq_ok_iff.1 hf
    rw [spec, Spec.build, ih]
    exact hf

/-- A function that can be built is read back, unless its templates are nested too deeply. -/
theorem Built.read_print (h : f.Built) : read f.print =
    if f.spec.toJson.depth ≤ Json.maxDepth then .ok f else .error (.read .json) := by
  rw [read, print, Spec.read_compact h.sized]
  split
  · simp only [bind, Except.bind, h.build_spec]
  · rfl

/-- No text leads to an error but one of reading. -/
theorem exists_fault_of_read {text : String} {e : Error} (h : read text = .error e) :
    ∃ fault, e = .read fault := by
  rw [read] at h
  cases hspec : Spec.read text with
  | error e' =>
    rw [hspec] at h
    exact Except.error.inj h ▸ Spec.exists_fault_of_read hspec
  | ok s =>
    rw [hspec] at h
    cases hbuild : s.build with
    | ok g => simp [bind, Except.bind, hbuild] at h
    | error e' =>
      simp only [bind, Except.bind, hbuild] at h
      exact Except.error.inj h ▸ exists_unbuilt e'

/-- A function that can be built is read back from what it prints if that nests no more than 127
    objects, and refused if it nests more; and whatever text is read, there is no error but one of
    reading. -/
theorem read_print_of_built (h : f.Built) :
    (f.spec.toJson.depth ≤ 127 → read f.print = .ok f) ∧
    (127 < f.spec.toJson.depth → ∃ fault, read f.print = .error (.read fault)) ∧
    ∀ text e, read text = .error e → ∃ fault, e = .read fault :=
  ⟨fun hdepth => h.read_print.trans (if_pos hdepth),
    fun hdepth => ⟨.json, h.read_print.trans (if_neg (Nat.not_le.2 hdepth))⟩,
    fun _ _ => exists_fault_of_read⟩

end Engine

/-- A backslash and a quotation mark. -/
def slashQuote : Pattern :=
  ⟨"\\\\\"", Pattern.Program.locate? ⟨2, #[.done, .take #[(34, 34)] 0, .take #[(92, 92)] 1]⟩⟩

theorem read_slashQuote : Pattern.read "\\\\\"" = .ok slashQuote :=
  Pattern.read_of_ofSource? (by decide +kernel)

/-- The backslashes and the quotation mark of the pattern are escaped, and read back. -/
theorem read_print_slashQuote : (applyToAll (find slashQuote)).Built ∧
    (applyToAll (find slashQuote)).spec.toJson.depth = 2 ∧
    (find slashQuote).print = "\x7b\"function\":\"regex_find\",\"pattern\":\"\\\\\\\\\\\"\"\x7d" ∧
    read (applyToAll (find slashQuote)).print = .ok (applyToAll (find slashQuote)) := by
  have h : (applyToAll (find slashQuote)).Built := .overElements (.find read_slashQuote) rfl
  exact ⟨h, rfl, by decide +kernel, (read_print_of_built h).1 (by decide)⟩

end Function

end Lineage
