import Lineage.Json.Reader
import Lineage.Toml.Reader
import Lineage.Tracer

/-!
# Settings

Settings come from a configuration file, if there is one, and then from the
environment: a variable takes the place of what the file holds under the same
key. Only then is what they hold interpreted, so a file may hold nonsense where
a variable hides it.
-/

namespace Lineage

/-- What users may choose. Each field has the value that holds if they do not. -/
structure Settings where
  /-- What a trace asks for. -/
  query : Query := .provenance
  /-- How far a trace goes. -/
  maxDepth : Option Nat := none
  /-- What is logged. -/
  logFilter : String := "info"
deriving Repr, DecidableEq

namespace Settings

/-! ### Sources -/

/-- A format of configuration files. -/
inductive Format where
  | toml
  | json
deriving Repr, DecidableEq

namespace Format

/-- The formats; of several files, the one in the first of them counts. -/
def all : List Format := [toml, json]

/-- How the name of a file in a format ends. -/
def extension : Format → String
  | toml => "toml"
  | json => "json"

/-- What a text in a format holds. -/
def read? (s : String) : Format → Option Entry
  | toml => Toml.read s
  | json => do
    let j ← Json.read s
    if j.isStrict then Entry.ofJson? j else none

end Format

/-- A text without the mark of byte order that it may begin with. -/
def dropMark (s : String) : String :=
  match s.toList with
  | '\ufeff' :: cs => String.ofList cs
  | _ => s

/-- A configuration with several values put under their keys in turn. -/
def putAll (e : Entry) (fields : List (String × Entry)) : Entry :=
  fields.foldl (fun e (key, value) => e.put key value) e

/-- The configuration in files, given by the ends of their names. -/
def ofFiles (files : List (String × String)) : Except Error Entry :=
  match Format.all.findSome? fun f => (files.lookup f.extension).map (f, ·) with
  | none => .ok (.table [])
  | some (format, text) =>
    match format.read? (dropMark text) with
    | some (.table fields) => .ok (putAll (.table []) fields)
    | some _ => .error (.config "the configuration is no table")
    | none => .error (.config "the configuration cannot be read")

/-- What the names of variables that hold settings begin with, in either
    case. -/
def variableStart : String := "breadcrumb_"

/-- The key that a variable stands for, if it holds a setting. -/
def keyOf? (name : String) : Option String :=
  let name := name.toLower.toList
  let start := variableStart.toList
  if start.isPrefixOf name then some (String.ofList (name.drop start.length)) else none

/-- The settings among the variables of an environment, given by their names and
    values. -/
def ofVariables (environment : List (String × String)) : List (String × Entry) :=
  environment.filterMap fun (name, value) => (keyOf? name).map (·, .text value)

/-! ### Interpretation -/

/-- What a configuration holds under a key, read by `read?`, or the given value
    if it holds nothing. -/
def field {α : Type} (e : Entry) (key : String) (standard : α) (read? : Entry → Option α) :
    Except Error α :=
  match e.get? key with
  | none => .ok standard
  | some value =>
    match read? value with
    | some a => .ok a
    | none => .error (.config s!"not a valid {key}")

/-- The query that an entry names. -/
def queryOf? (e : Entry) : Option Query := do
  let word ← e.asWord?
  Query.all.find? (·.text = word)

/-- The bound that an entry is; it may be that there is none. -/
def boundOf? : Entry → Option (Option Nat)
  | .null => some none
  | e => e.asNat?.map some

/-- The settings in a configuration. Other keys are ignored. -/
def ofEntry (e : Entry) : Except Error Settings := do
  let standard : Settings := {}
  return {
    query := ← field e "query" standard.query queryOf?
    maxDepth := ← field e "max_depth" standard.maxDepth boundOf?
    logFilter := ← field e "log_filter" standard.logFilter Entry.asText? }

/-- The settings in files, given by the ends of their names, and an environment. -/
def load (files environment : List (String × String)) : Except Error Settings := do
  ofEntry (putAll (← ofFiles files) (ofVariables environment))

/-- The tracer that goes as far as settings say. -/
def tracer (s : Settings) : Tracer := ⟨s.maxDepth⟩

end Settings

end Lineage
