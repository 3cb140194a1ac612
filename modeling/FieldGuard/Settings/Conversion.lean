import FieldGuard.Number.Shortest
import FieldGuard.Settings.Json
import FieldGuard.Settings.Raw
import FieldGuard.Text.Quoted

/-!
# `FieldGuard.Settings.Conversion`: what a setting needs from what is there

Truth values are made from words and numbers, texts from truth values and numbers.
Where that is not possible the fault says what was found, what was expected and
under which key.
-/

set_option autoImplicit false

namespace FieldGuard.Settings

/-- Why settings cannot be loaded. -/
inductive LoadFault where
  /-- A value is not what the option of the key needs. The origin names the layer of the
  value, if it is known. -/
  | unfit (key expected found origin : String)
  /-- A name is blank. -/
  | blank (reason : String)
  deriving DecidableEq, Repr

/-- Text between back quotes. -/
def backQuoted (text : String) : String :=
  "\u0060" ++ text ++ "\u0060"

/-- The text that describes the fault. -/
def LoadFault.message : LoadFault → String
  | .unfit key expected found origin =>
    "invalid type: " ++ found ++ ", expected " ++ expected ++ " for key " ++ backQuoted key
      ++ (if origin.isEmpty then "" else " in " ++ origin)
  | .blank reason => reason

/-- What was found in place of what was expected. -/
def describe : Json → String
  | .null => "unit value"
  | .bool b => "boolean " ++ backQuoted (if b then "true" else "false")
  | .int n => "integer " ++ backQuoted (toString n)
  | .float x =>
    let text := Number.plainText x
    "floating point "
      ++ backQuoted (if Number.isFinite x && !text.toList.contains '.' then text ++ ".0" else text)
  | .string s => "string " ++ Text.quoted s
  | .array _ => "sequence"
  | .object _ => "map"

/-- The complaint about a value of the wrong kind. -/
def unfit (key expected : String) : Raw → LoadFault
  | .value json origin => .unfit key expected (describe json) origin
  | .table _ => .unfit key expected "map" ""

/-- A truth value. -/
def boolOf (key : String) (raw : Raw) : Except LoadFault Bool :=
  match raw with
  | .value (.bool b) _ => .ok b
  | .value (.int n) _ => .ok (n != 0)
  | .value (.float x) _ => .ok !(Number.sameNumber x 0)
  | .value (.string s) origin =>
    match lowered s with
    | "true" | "1" | "on" | "yes" => .ok true
    | "false" | "0" | "off" | "no" => .ok false
    | word => .error (unfit key "a boolean" (.value (.string word) origin))
  | _ => .error (unfit key "a boolean" raw)

/-- A text. -/
def textOf (key : String) (raw : Raw) : Except LoadFault String :=
  match raw with
  | .value (.string s) _ => .ok s
  | .value (.bool b) _ => .ok (if b then "true" else "false")
  | .value (.int n) _ => .ok (toString n)
  | .value (.float x) _ => .ok (Number.plainText x)
  | _ => .error (unfit key "a string" raw)

/-- A text that may be missing. -/
def optionalTextOf (key : String) (raw : Raw) : Except LoadFault (Option String) :=
  match raw with
  | .value .null _ => .ok none
  | _ => (textOf key raw).map some

/-- Texts by key. What stands in place of a table is refused without naming its layer. -/
def overridesOf (key : String) (raw : Raw) : Except LoadFault Overrides :=
  match raw with
  | .table members => do
    let pairs ← members.mapM fun (name, raw) => (textOf (key ++ "." ++ name) raw).map fun text => (name, text)
    .ok (Dict.ofList pairs)
  | .value json _ => .error (unfit key "a map" (.value json ""))

/-- Converts the option of a key; a missing one has its default. -/
def optionOf {α : Type} (raw : Raw) (key : String) (default : α)
    (convert : String → Raw → Except LoadFault α) : Except LoadFault α :=
  match Keyed.find? key raw.members with
  | some value => convert key value
  | none => .ok default

/-- Converts all options. -/
def ofRaw (raw : Raw) : Except LoadFault Settings := do
  let keepsEmptyText ← optionOf raw keepsEmptyTextOption false boolOf
  let usesGroupSequences ← optionOf raw usesGroupSequencesOption false boolOf
  let reportsAllViolations ← optionOf raw reportsAllViolationsOption false boolOf
  let reviewer ← optionOf raw reviewerOption none optionalTextOf
  let extractor ← optionOf raw extractorOption none optionalTextOf
  let basePackage ← optionOf raw basePackageOption none optionalTextOf
  let strategies ← optionOf raw strategiesOption ∅ overridesOf
  let transformers ← optionOf raw transformersOption ∅ overridesOf
  .ok { keepsEmptyText, usesGroupSequences, reportsAllViolations, reviewer, extractor,
        basePackage, strategies, transformers }

end FieldGuard.Settings
