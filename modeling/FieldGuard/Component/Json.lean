import FieldGuard.Annotation.Json
import FieldGuard.Component.Basic
import FieldGuard.Json.Decode

/-!
# `FieldGuard.Component.Json`: components as JSON

The converter of a component is not written.
-/

set_option autoImplicit false

namespace FieldGuard

namespace HostValidator

/-- The validator as JSON. -/
def toJson : HostValidator → Json
  | .length minimum maximum =>
    .ofMembers [("type", .string "Length"), ("minimum", Json.orNull Json.ofUInt64 minimum),
      ("maximum", Json.orNull Json.ofUInt64 maximum)]
  | .wholeRange minimum maximum =>
    .ofMembers [("type", .string "LongRange"), ("minimum", Json.orNull Json.ofInt64 minimum),
      ("maximum", Json.orNull Json.ofInt64 maximum)]
  | .decimalRange minimum maximum =>
    .ofMembers [("type", .string "DoubleRange"), ("minimum", Json.orNull Json.ofFloat minimum),
      ("maximum", Json.orNull Json.ofFloat maximum)]
  | .regex pattern => .ofMembers [("type", .string "Regex"), ("pattern", .string pattern)]
  | .email => .ofMembers [("type", .string "Email")]
  | .custom id => .ofMembers [("type", .string "Custom"), ("id", .string id)]

/-- Decodes the members of a validator of the named kind. -/
def ofMembers? (tag : String) (members : List (String × Json)) : Option HostValidator :=
  match tag with
  | "Length" => do
    let minimum ← Json.optional? "minimum" Json.asUInt64? members
    let maximum ← Json.optional? "maximum" Json.asUInt64? members
    some (.length minimum maximum)
  | "LongRange" => do
    let minimum ← Json.optional? "minimum" Json.asInt64? members
    let maximum ← Json.optional? "maximum" Json.asInt64? members
    some (.wholeRange minimum maximum)
  | "DoubleRange" => do
    let minimum ← Json.optional? "minimum" Json.asFloat? members
    let maximum ← Json.optional? "maximum" Json.asFloat? members
    some (.decimalRange minimum maximum)
  | "Regex" => (Json.required? "pattern" Json.asString? members).map .regex
  | "Email" => some .email
  | "Custom" => (Json.required? "id" Json.asString? members).map .custom
  | _ => none

/-- Decodes a validator. -/
def ofJson? (json : Json) : Option HostValidator := do
  let members ← json.asObject?
  let tag ← Json.required? "type" Json.asString? members
  ofMembers? tag members

/-- Validators as JSON. -/
def listToJson (validators : List HostValidator) : Json :=
  .array (validators.map toJson)

end HostValidator

namespace Identity

/-- The identity as JSON. -/
def toJson (i : Identity) : Json :=
  .ofMembers [("client_id", .string i.clientId), ("component_type", .string i.componentType),
    ("label", Json.orNull .string i.label)]

/-- Decodes an identity. -/
def ofJson? (json : Json) : Option Identity := do
  let members ← json.asObject?
  let clientId ← Json.required? "client_id" Json.asString? members
  let componentType ← Json.required? "component_type" Json.asString? members
  let label ← Json.optional? "label" Json.asString? members
  some ⟨clientId, componentType, label⟩

end Identity

namespace Component

/-- The component as JSON. -/
def toJson (c : Component) : Json :=
  .ofMembers [("client_id", .string c.clientId), ("component_type", .string c.componentType),
    ("value_binding", Json.orNull .string c.valueBinding), ("editable", .bool c.editable),
    ("label", Json.orNull .string c.label), ("required", Json.orNull .bool c.required),
    ("metadata_required", .bool c.weaklyRequired),
    ("validators", HostValidator.listToJson c.validators),
    ("extval_validators", .object (c.attached.pairs.map fun (slot, v) => (slot, v.toJson))),
    ("attributes", .object c.attributes.pairs)]

/-- Decodes a component. -/
def ofJson? (json : Json) : Option Component := do
  let members ← json.asObject?
  let clientId ← Json.required? "client_id" Json.asString? members
  let componentType ← Json.defaulted? "component_type" "HtmlInputText" Json.asString? members
  let valueBinding ← Json.optional? "value_binding" Json.asString? members
  let editable ← Json.defaulted? "editable" true Json.asBool? members
  let label ← Json.optional? "label" Json.asString? members
  let required ← Json.optional? "required" Json.asBool? members
  let weaklyRequired ← Json.defaulted? "metadata_required" false Json.asBool? members
  let validators ← Json.defaulted? "validators" [] (Json.listOf? HostValidator.ofJson?) members
  let attached ← Json.defaulted? "extval_validators" [] (Json.pairsOf? HostValidator.ofJson?) members
  let attributes ← Json.defaulted? "attributes" [] Json.asObject? members
  some { clientId, componentType, valueBinding, editable, label, required, weaklyRequired,
         validators, attached := Dict.ofList attached, attributes := Dict.ofList attributes }

end Component

end FieldGuard
