import FieldGuard.Number.Reading
import FieldGuard.Settings.Conversion

/-!
# `FieldGuard.Settings.Layers`: settings from a file and the environment

Three layers are put on top of each other: the defaults, the table of a file, and
the variables of the environment that begin with the prefix. A layer replaces
single values and extends tables. What is there in the end is converted. The layers
are usually left to a library; they are written here after what such a one documents.
-/

set_option autoImplicit false

namespace FieldGuard.Settings

/-! ### The layers -/

/-- What the layer of an environment variable is called. -/
def environmentOrigin : String := "the environment"

/-- The layer of defaults. -/
def defaultLayer : Raw :=
  Raw.overlay "" none (Settings.toJson {})

/-- Puts named values on top, one after the other. -/
def overlayAll (origin : String) (below : Raw) (values : List (String × Json)) : Raw :=
  values.foldl (fun raw value => Raw.put origin value.2 (pathOf value.1) (some raw)) below

/-- The prefix of environment variables, in lower case. -/
def variablePrefix : String := "extval_"

/-- What the text of a variable stands for. -/
def variableValue (text : String) : Json :=
  match lowered text with
  | "true" => .bool true
  | "false" => .bool false
  | _ =>
    match Number.readInt64? text with
    | some n => .int n.toInt
    | none =>
      match Number.readFloat? text with
      | some x => .float x
      | none => .string text

/-- The option that a variable sets, if its name has the prefix in any case. -/
def ofVariable? (name text : String) : Option (String × Json) :=
  let plain := (lowered name).toList
  if variablePrefix.toList.isPrefixOf plain then
    some (String.ofList (plain.drop variablePrefix.length), variableValue text)
  else none

/-! ### Loading -/

/-- The settings of the defaults, the table of a file if there is one, and the
variables of the environment. Settings with a blank name are refused. -/
def load (fileName : String) (file : List (String × Json)) (environment : List (String × String)) :
    Except LoadFault Settings := do
  let raw := overlayAll fileName defaultLayer file
  let raw := overlayAll environmentOrigin raw
    (environment.filterMap fun (name, text) => ofVariable? name text)
  let settings ← ofRaw raw
  match settings.complaint? with
  | some reason => .error (.blank reason)
  | none => .ok settings

end FieldGuard.Settings
