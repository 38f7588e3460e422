import FragmentFlow.Settings.Limits
import FragmentFlow.Toml.Document

/-!
# Settings

What a settings file may say: limits of analyses, checkers not to run, and type
names that are known.  Everything has a usual value, and entries with other
names mean nothing.
-/

namespace FragmentFlow

/-- The settings of a run. -/
structure Settings where
  limits : Limits := {}
  /-- Names of checkers that are not run. -/
  disabled : List String := []
  /-- Type names that are known besides those of the program. -/
  knownTypes : List String := []
  deriving DecidableEq, Repr

namespace Toml.Value

/-- The fields of a record, by name or by position.  A date has no field of any
name. -/
def fields? (names : List String) : Value → Option (List (Option Value))
  | table _ entries => some (names.map fun name => entries.lookup name)
  | arr items | tables items => some (names.mapIdx fun index _ => items[index]?)
  | date => some (names.map fun _ => none)
  | _ => none

/-- A count. -/
def count? : Value → Option Nat
  | int value => if 0 ≤ value then some value.toNat else none
  | _ => none

/-- A text. -/
def text? : Value → Option String
  | str value => some value
  | _ => none

/-- A list of texts. -/
def texts? : Value → Option (List String)
  | arr items => items.mapM text?
  | _ => none

end Toml.Value

namespace Settings

open Toml (Value)

/-- The value of a field, or the usual one where the field is missing. -/
def fieldOr {α : Type} (usual : α) (decode : Value → Option α) : Option Value → Option α
  | none => some usual
  | some value => decode value

/-- Limits in a settings file. -/
def limits? (value : Value) : Option Limits := do
  let usual : Limits := {}
  match ← value.fields? ["max_visits_per_node", "min_visit_limit"] with
  | [visitsPerNode, leastVisits] =>
    some
      { visitsPerNode := ← fieldOr usual.visitsPerNode Value.count? visitsPerNode
        leastVisits := ← fieldOr usual.leastVisits Value.count? leastVisits }
  | _ => none

/-- Names of checkers and of types in a settings file. -/
def checks? (value : Value) : Option (List String × List String) := do
  match ← value.fields? ["disabled", "known_types"] with
  | [disabled, knownTypes] =>
    some (← fieldOr [] Value.texts? disabled, ← fieldOr [] Value.texts? knownTypes)
  | _ => none

/-- The settings of a document. -/
def ofDocument? (value : Value) : Option Settings := do
  match ← value.fields? ["dataflow", "checks"] with
  | [limits, checks] =>
    let (disabled, knownTypes) ← fieldOr ([], []) checks? checks
    some { limits := ← fieldOr {} limits? limits, disabled, knownTypes }
  | _ => none

/-- Reads the text of a settings file. -/
def parse (text : String) : Option Settings := do
  ofDocument? (← Toml.parse text)

/-- The settings in JSON. -/
def toJson (settings : Settings) : Json :=
  let texts (items : List String) : Json := .arr (items.map .str)
  .obj [("dataflow", settings.limits.toJson),
    ("checks", .obj [("disabled", texts settings.disabled),
      ("known_types", texts settings.knownTypes)])]

end Settings

end FragmentFlow
