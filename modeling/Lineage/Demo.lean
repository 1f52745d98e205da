import Lineage.Json.Printer
import Lineage.Pattern.Standard
import Lineage.Settings
import Lineage.Tree.Json

/-!
# A demonstration

Runs of the letter `b` are found in each of three words, and the one found in
the second word is explained. The explanation is a tree that ends in a range of
that word.
-/

namespace Lineage.Demo

/-- A circuit with one function, which finds the first run of the letter `b` in
    each of three words, once it has been evaluated, and the function. -/
def circuit : Except Error (Circuit × FunctionId) := do
  let find := Function.find (← Pattern.read "b+")
  let (c, id) := Circuit.empty.add (← Function.overElements find)
  let c ← c.feed ⟨id, 0⟩ (.list [.str "abba", .str "bob", .str "cab"])
  let (outputs, c) := c.evaluate id
  let _ ← outputs
  return (c, id)

/-- What was found in the second word. -/
def question : Designator := Designator.compose [.output 0, .element 1]

/-- More nodes than stand one below the other in the explanation. -/
def fuel : Nat := 16

/-- The explanation, by a tracer that goes as far as settings say. -/
def explanation? (s : Settings) : Option Tree := do
  let (c, id) ← circuit.toOption
  s.tracer.tree? fuel c.wiring s.query question id

/-- What a run of the program leaves. -/
structure Outcome where
  /-- Zero, unless the run failed. -/
  status : UInt32
  /-- What is printed. -/
  output : String
  /-- What is reported of a failure. -/
  report : String
deriving Repr, DecidableEq

/-- A run with settings from files, given by the ends of their names, and
    an environment. -/
def run (files environment : List (String × String)) : Outcome :=
  match Settings.load files environment with
  | .error e => ⟨1, "", e.message ++ "\n"⟩
  | .ok s =>
    match explanation? s with
    | some tree => ⟨0, tree.toJson.pretty ++ "\n", ""⟩
    | none => ⟨1, "", ""⟩

end Lineage.Demo
