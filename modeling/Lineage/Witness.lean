import Lineage.Keeper.Graft

/-!
# Witnesses

Every evaluation of a function leaves a witness, which can explain a part of the
output by parts of the inputs. The answer is attached below a node of the
keeper, the *root*, which stands for that part of the output; the nodes it ends
in are given back, so that the explanation can go on from them.

* A function that knows nothing finer links its output to all inputs together.
* A function that copies its input links a part of the output to the same part
  of the input.
* A quantifier links its output to the elements that decided it, or, where none
  did, to all elements together.
* A function that found a match links a range of the match to the range of the
  input it was found at. A match does not pin down which characters of the input
  it depends on, so the link is an over-approximation.
* A function applied to each element of a list asks the witness of the element
  in question, and moves its answer to that element.

An answer may fail, and with it the answers that depend on it (`Witness.tryAnswer`). None does
(`Witness.tryAnswer_eq`): the errors that arise are those of ranges that no words hold or whose
ends are the wrong way round, and they end where they arise. So it is its result that is used
(`Witness.answer`).
-/

namespace Lineage

/-- Where a match was found: its first and last character, and the length of the
    text searched. -/
structure Found where
  start : Nat
  stop : Nat
  length : Nat
deriving Repr, DecidableEq

namespace Found

/-- The range of the input that a part of the match came from. The start of a range
    is moved by the offset of the match, and its end is placed by its length;
    offsets and lengths are limited to the length of the text. A range whose length
    or ends are no words, or whose end comes before its start, is an error, and
    there is none for parts other than ranges and the whole. -/
def inputRange (f : Found) : Part → Except Error (Option Range)
  | .range r => do
    let offset : Int := min f.start f.length
    let length ← r.length
    match Word.add? r.start offset, Word.add? offset (min length f.length) with
    | some start, some stop => return some (← Range.ofEnds start stop)
    | _, _ => throw (.overflow (.shifted r offset))
  | .identity =>
    return some (← Range.ofEnds (min f.start f.length : Nat) (min f.stop f.length : Nat))
  | _ => return none

/-- The range of the input that a part of the match came from, if one can be told. -/
def inputRange? (f : Found) (p : Part) : Option Range := (f.inputRange p).toOption.join

variable {f : Found} {p : Part} {r t : Range}

theorem inputRange?_range : f.inputRange? (.range r) = (do
    let length ← r.length.toOption
    let start ← Word.add? r.start (min f.start f.length : Int)
    let stop ← Word.add? (min f.start f.length : Int) (min length f.length)
    (Range.ofEnds start stop).toOption) := by
  rw [inputRange?, inputRange]
  cases r.length with
  | error e => rfl
  | ok length =>
    dsimp only [Except.toOption, bind, Option.bind, Except.bind]
    cases Word.add? r.start (min f.start f.length : Int) with
    | none => rfl
    | some start =>
      cases Word.add? (min f.start f.length : Int) (min length f.length) with
      | none => rfl
      | some stop =>
        dsimp only
        cases Range.ofEnds start stop <;> rfl

theorem inputRange?_identity : f.inputRange? .identity =
    (Range.ofEnds (min f.start f.length : Nat) (min f.stop f.length : Nat)).toOption := by
  rw [inputRange?, inputRange]
  cases Range.ofEnds (min f.start f.length : Nat) (min f.stop f.length : Nat) <;> rfl

theorem inputRange?_range_eq_some_iff : f.inputRange? (.range r) = some t ↔
    Word.Signed (r.stop - r.start + 1) ∧ t.Bounded ∧
      t.start = r.start + min (f.start : Int) f.length ∧
      t.stop = min (f.start : Int) f.length + min (r.stop - r.start + 1) f.length := by
  have hmin : ((min f.start f.length : Nat) : Int) = min (f.start : Int) f.length := by omega
  simp only [inputRange?_range, Option.bind_eq_bind, Option.bind_eq_some_iff, Range.toOption_length,
    Word.signed?_eq_some_iff, Word.add?_eq_some_iff, Range.toOption_ofEnds_eq_some_iff]
  constructor
  · rintro ⟨_, ⟨hlength, rfl⟩, _, ⟨hstart, rfl⟩, _, ⟨hstop, rfl⟩, hs, he⟩
    exact ⟨hlength, ⟨hs ▸ hstart, he ▸ hstop⟩, hs, he⟩
  · rintro ⟨hlength, ⟨hstart, hstop⟩, hs, he⟩
    exact ⟨_, ⟨hlength, rfl⟩, _, ⟨hs ▸ hstart, rfl⟩, _, ⟨he ▸ hstop, rfl⟩, hs, he⟩

theorem inputRange?_identity_eq_some_iff : f.inputRange? .identity = some t ↔
    t.start = min (f.start : Int) f.length ∧ t.stop = min (f.stop : Int) f.length := by
  rw [inputRange?_identity, Range.toOption_ofEnds_eq_some_iff]
  omega

theorem inputRange?_eq_some_iff : f.inputRange? p = some t ↔
    (∃ r, p = .range r ∧ f.inputRange? (.range r) = some t) ∨
      p = .identity ∧ f.inputRange? .identity = some t := by
  cases p with
  | range r => simp
  | identity => simp
  | _ => exact iff_of_false nofun (by simp)

end Found

/-- The record of one evaluation. -/
inductive Witness where
  /-- Of a function with the given number of inputs, and nothing more. -/
  | linkAll (arity : Nat)
  /-- Of a function that copied its input. -/
  | forked
  /-- Of a quantifier over a list of the given length, decided by the elements
      at the given positions. -/
  | quantified (length : Nat) (positions : List Nat)
  /-- Of a search that found a match. -/
  | found (place : Found)
  /-- Of a function applied to each element of a list. -/
  | applied (elements : List Witness)
deriving Repr

namespace Witness

/-- The number of inputs of the function that left the witness. -/
def inArity : Witness → Nat
  | linkAll arity => arity
  | _ => 1

/-- A part of element `n` of the first input. -/
def elementPart (n : Nat) (d : Designator) : Designator :=
  Designator.nest [.input 0, .element n] d

/-- A part of the input of a function that is applied to element `n`, as a part
    of the list. -/
def moveToElement (n : Nat) (d : Designator) : Designator :=
  match d.head with
  | .input _ => elementPart n d.rest
  | _ => elementPart n d

mutual

/-- Explains the part `d` of an output of `subject`, for which `root` stands; gives the nodes that
    the explanation ends in. What is wrong with a range of a match prevents nothing, as all inputs
    are linked then; what prevents the answer at an element prevents the answer about the list. -/
def tryAnswer (query : Query) (d : Designator) (subject : FunctionId) (root : NodeId) (k : Keeper) :
    Witness → Except Error (Keeper × List NodeId)
  | linkAll arity => .ok (k.linkAllInputs subject arity root)
  | forked => .ok (Keeper.attach subject root .exact [Designator.nest [.input 0] d] k)
  | quantified length positions =>
    if query = .causality ∧ positions ≠ [] then
      .ok (k.attachBelow .or subject root (positions.map (elementPart · d)))
    else
      .ok (k.attachBelow .and subject root ((List.range length).map (elementPart · d)))
  | found place =>
    match place.inputRange d.head with
    | .ok (some r) =>
      .ok (Keeper.attach subject root .overApprox [Designator.nest [.input 0, .range r] d.rest] k)
    | .ok none => .ok (k.linkAllInputs subject 1 root)
    | .error _ => .ok (k.linkAllInputs subject 1 root)
  | applied elements =>
    match d.head with
    | .identity => .ok (Keeper.attach subject root .exact [Designator.compose [.input 0]] k)
    | .element n => do
      match ← tryAnswerAt query d.rest subject elements n with
      | some (scratch, leaves) => return k.graft subject scratch 0 root leaves (moveToElement n)
      | none => return k.linkAllInputs subject 1 root
    | _ => .ok (k.linkAllInputs subject 1 root)

/-- The answer of the witness at the given place on a keeper of its own, which holds but the root,
    the first output. -/
def tryAnswerAt (query : Query) (d : Designator) (subject : FunctionId) :
    List Witness → Nat → Except Error (Option (Keeper × List NodeId))
  | [], _ => .ok none
  | w :: _, 0 => do
    let (scratch, root) := Keeper.empty.objectNode subject (Designator.compose [.output 0])
    return some (← tryAnswer query d subject root scratch w)
  | _ :: ws, n + 1 => tryAnswerAt query d subject ws n

end

/-- The answer about the part `d` of an output of `subject`. If it failed, it would
    change nothing. -/
def answer (query : Query) (d : Designator) (subject : FunctionId) (root : NodeId) (k : Keeper)
    (w : Witness) : Keeper × List NodeId :=
  (tryAnswer query d subject root k w).toOption.getD (k, [])

end Witness

end Lineage
