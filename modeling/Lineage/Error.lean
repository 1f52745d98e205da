import Lineage.Range.Basic
import Lineage.Value

/-!
# Errors

Each way an operation may fail, by its cause. The wording is `Error.message`.
-/

namespace Lineage

/-- Why a printed form cannot be read. -/
inductive ReadFault where
  /-- A number with digits of another script, or too large for a word. -/
  | invalidIndex (digits : String)
  /-- A text that is no designator part. -/
  | unknownPart (text : String)
  /-- A text that is not JSON, or not JSON of the form expected. -/
  | json
  /-- A text that is no pattern. -/
  | pattern
  /-- A well-formed description of a function that cannot be built. -/
  | unbuildable (reason : String)
deriving Repr, DecidableEq

/-- How an operation on a circuit may fail. -/
inductive WiringFault where
  | unknownFunction (id : Nat)
  | noInput (id inputs input : Nat)
  | noOutput (id outputs output : Nat)
  /-- The function needs its own output. -/
  | dependsOnItself (id : Nat)
  /-- The function returned fewer outputs than it declares. -/
  | producedNoOutput (id output : Nat)
  | notConnected (id input : Nat)
deriving Repr, DecidableEq

/-- A result that no word holds. -/
inductive Overflow where
  | lengthOf (range : Range)
  | shifted (range : Range) (offset : Int)
  | sumIn (function : String)
deriving Repr, DecidableEq

/-- Why an operation failed. -/
inductive Error where
  /-- A function has `actual` inputs or outputs in place of `expected`. -/
  | arity (function : String) (expected actual : Nat)
  | malformedRange (start stop : Int)
  | typeMismatch (function : String) (expected found : Kind)
  | read (fault : ReadFault)
  /-- Settings that cannot be loaded. -/
  | config (reason : String)
  | wiring (fault : WiringFault)
  | overflow (result : Overflow)
deriving Repr, DecidableEq

def ReadFault.message : ReadFault → String
  | invalidIndex digits => s!"not a valid index: {digits}"
  | unknownPart text => s!"unknown designator part: {text}"
  | json => "not a JSON text of the expected form"
  | pattern => "not a pattern"
  | unbuildable reason => reason

def WiringFault.message : WiringFault → String
  | unknownFunction id => s!"unknown function f{id}"
  | noInput id inputs input => s!"f{id} has {inputs} inputs, no input {input}"
  | noOutput id outputs output => s!"f{id} has {outputs} outputs, no output {output}"
  | dependsOnItself id => s!"f{id} depends on its own output"
  | producedNoOutput id output => s!"f{id} produced no output {output}"
  | notConnected id input => s!"input {input} of f{id} is not connected"

def Overflow.message : Overflow → String
  | lengthOf range => s!"length of {range.text}"
  | shifted range offset => s!"{range.text} shifted by {offset}"
  | sumIn function => s!"sum in {function}"

/-- The displayed form of an error. -/
def Error.message : Error → String
  | arity function expected actual =>
    s!"Invalid number of arguments for {function}: expected {expected}, got {actual}"
  | malformedRange start stop =>
    s!"Malformed range: end index {stop} smaller than start index {start}"
  | typeMismatch function expected found =>
    s!"Type mismatch in {function}: expected {expected.text}, found {found.text}"
  | read fault => s!"Read error: {fault.message}"
  | config reason => s!"Config error: {reason}"
  | wiring fault => s!"Wiring error: {fault.message}"
  | overflow result => s!"Arithmetic overflow: {result.message}"

end Lineage
