import FieldGuard.Annotation.Basic
import FieldGuard.Json.Decode

/-!
# `FieldGuard.Annotation.Json`: annotations as JSON

An annotation is an object whose member `type` names its kind, a rule one whose
member `kind` does. All other members are written in full; on reading, those
with a default may be missing.
-/

set_option autoImplicit false

namespace FieldGuard

/-- A length or limit as JSON. -/
def Json.ofUInt64 (n : UInt64) : Json := .int n.toNat

/-- A whole number as JSON. -/
def Json.ofInt64 (n : Int64) : Json := .int n.toInt

namespace Rule

/-- The rule as JSON. -/
def toJson : Rule → Json
  | .notNull => .ofMembers [("kind", .string "NotNull")]
  | .size low high =>
    .ofMembers [("kind", .string "Size"), ("min", .ofUInt64 low), ("max", .ofUInt64 high)]
  | .min value => .ofMembers [("kind", .string "Min"), ("value", .ofInt64 value)]
  | .max value => .ofMembers [("kind", .string "Max"), ("value", .ofInt64 value)]
  | .pattern regexp => .ofMembers [("kind", .string "Pattern"), ("regexp", .string regexp)]
  | .email => .ofMembers [("kind", .string "Email")]
  | .equal properties => .ofMembers [("kind", .string "Equal"), ("properties", .strings properties)]

/-- Decodes the members of a rule of the named kind. -/
def ofMembers? (kind : String) (members : List (String × Json)) : Option Rule :=
  match kind with
  | "NotNull" => some .notNull
  | "Size" => do
    let low ← Json.defaulted? "min" 0 Json.asUInt64? members
    let high ← Json.defaulted? "max" unbounded Json.asUInt64? members
    some (.size low high)
  | "Min" => (Json.required? "value" Json.asInt64? members).map .min
  | "Max" => (Json.required? "value" Json.asInt64? members).map .max
  | "Pattern" => (Json.required? "regexp" Json.asString? members).map .pattern
  | "Email" => some .email
  | "Equal" => (Json.required? "properties" Json.strings? members).map .equal
  | _ => none

/-- Decodes a rule. -/
def ofJson? (json : Json) : Option Rule := do
  let members ← json.asObject?
  let kind ← Json.required? "kind" Json.asString? members
  ofMembers? kind members

end Rule

namespace Constraint

mutual

/-- The members of a constraint, beside those of the annotation that holds it. -/
def toMembers : Constraint → List (String × Json)
  | ⟨rule, groups, message, composing⟩ =>
    [("constraint", rule.toJson), ("groups", .strings groups),
      ("message", Json.orNull .string message), ("composing", .array (listToJson composing))]

/-- Constraints as JSON. -/
def listToJson : List Constraint → List Json
  | [] => []
  | c :: rest => .ofMembers (toMembers c) :: listToJson rest

end

/-- The constraint as JSON. -/
def toJson (c : Constraint) : Json :=
  .ofMembers (toMembers c)

mutual

/-- Decodes a constraint. -/
def ofJson? : Json → Option Constraint
  | .object members => do
    let rule ← Json.required? "constraint" Rule.ofJson? members
    let groups ← Json.defaulted? "groups" [] Json.strings? members
    let message ← Json.optional? "message" Json.asString? members
    let composing ← composingOf? members
    some ⟨rule, groups, message, composing⟩
  | _ => none

/-- The constraints in the member `composing`; none if it is missing. -/
def composingOf? : List (String × Json) → Option (List Constraint)
  | [] => some []
  | (name, value) :: rest =>
    if name = "composing" then
      match value with
      | .array items => listOf? items
      | _ => none
    else composingOf? rest

/-- Decodes constraints one by one. -/
def listOf? : List Json → Option (List Constraint)
  | [] => some []
  | item :: rest => (ofJson? item).bind fun c => (listOf? rest).map (c :: ·)

end

end Constraint

namespace ModelValidation

/-- The model validation as JSON. -/
def toJson (m : ModelValidation) : Json :=
  .ofMembers [("is_active", .bool m.isActive), ("validation_targets", .strings m.targets)]

/-- Decodes a model validation. -/
def ofJson? (json : Json) : Option ModelValidation := do
  let members ← json.asObject?
  let isActive ← Json.defaulted? "is_active" false Json.asBool? members
  let targets ← Json.defaulted? "validation_targets" [defaultTarget] Json.strings? members
  some ⟨isActive, targets⟩

end ModelValidation

namespace GroupController

/-- The members of a controller. -/
def toMembers (c : GroupController) : List (String × Json) :=
  [("view_ids", .strings c.viewIds), ("use_groups", .strings c.useGroups),
    ("restrict_groups", .strings c.restrictGroups), ("conditions", .strings c.conditions),
    ("model_validation", c.modelValidation.toJson)]

/-- The controller as JSON. -/
def toJson (c : GroupController) : Json :=
  .ofMembers c.toMembers

/-- Decodes the members of a controller. -/
def ofMembers? (members : List (String × Json)) : Option GroupController := do
  let viewIds ← Json.defaulted? "view_ids" ["*"] Json.strings? members
  let useGroups ← Json.defaulted? "use_groups" [defaultGroup] Json.strings? members
  let restrictGroups ← Json.defaulted? "restrict_groups" [] Json.strings? members
  let conditions ← Json.defaulted? "conditions" ["#\x7btrue\x7d"] Json.strings? members
  let modelValidation ← Json.defaulted? "model_validation" {} ModelValidation.ofJson? members
  some ⟨viewIds, useGroups, restrictGroups, conditions, modelValidation⟩

/-- Decodes a controller. -/
def ofJson? (json : Json) : Option GroupController :=
  json.asObject?.bind ofMembers?

end GroupController

namespace Annotation

/-- The name of the kind, as the member `type` has it. -/
def Kind.tag : Kind → String
  | .required => "Required"
  | .length => "Length"
  | .wholeRange => "LongRange"
  | .decimalRange => "DoubleRange"
  | .pattern => "Pattern"
  | .hostValidators => "Validator"
  | .join => "JoinValidation"
  | .groupSequence => "GroupSequence"
  | .controller => "BeanValidation"
  | .constraint => "Constraint"
  | .marker => "Marker"

/-- The members of an annotation beside `type`. -/
def toMembers : Annotation → List (String × Json)
  | .required message => [("message", Json.orNull .string message)]
  | .length l =>
    [("minimum", .ofUInt64 l.minimum), ("maximum", .ofUInt64 l.maximum),
      ("message", Json.orNull .string l.message)]
  | .wholeRange r =>
    [("minimum", .ofInt64 r.minimum), ("maximum", .ofInt64 r.maximum),
      ("message", Json.orNull .string r.message)]
  | .decimalRange r =>
    [("minimum", .ofFloat r.minimum), ("maximum", .ofFloat r.maximum),
      ("message", Json.orNull .string r.message)]
  | .pattern p => [("value", .strings p.value), ("message", Json.orNull .string p.message)]
  | .hostValidators names => [("value", .strings names)]
  | .join targets => [("value", .strings targets)]
  | .groupSequence groups => [("value", .strings groups)]
  | .controller c => c.toMembers
  | .constraint c => c.toMembers
  | .marker name => [("name", .string name)]

/-- The annotation as JSON. -/
def toJson (a : Annotation) : Json :=
  .ofMembers (("type", .string a.kind.tag) :: a.toMembers)

/-- Decodes the message of an annotation. -/
def message? (members : List (String × Json)) : Option (Option String) :=
  Json.optional? "message" Json.asString? members

/-- Decodes the member `value` of an annotation that lists texts. -/
def texts? (members : List (String × Json)) : Option (List String) :=
  Json.required? "value" Json.strings? members

/-- Decodes the members of an annotation of the named kind. -/
def ofMembers? (tag : String) (members : List (String × Json)) : Option Annotation :=
  match tag with
  | "Required" => (message? members).map .required
  | "Length" => do
    let minimum ← Json.defaulted? "minimum" 0 Json.asUInt64? members
    let maximum ← Json.defaulted? "maximum" unbounded Json.asUInt64? members
    let message ← message? members
    some (.length ⟨minimum, maximum, message⟩)
  | "LongRange" => do
    let minimum ← Json.defaulted? "minimum" Int64.minValue Json.asInt64? members
    let maximum ← Json.defaulted? "maximum" Int64.maxValue Json.asInt64? members
    let message ← message? members
    some (.wholeRange ⟨minimum, maximum, message⟩)
  | "DoubleRange" => do
    let minimum ← Json.defaulted? "minimum" Number.least Json.asFloat? members
    let maximum ← Json.defaulted? "maximum" Number.largest Json.asFloat? members
    let message ← message? members
    some (.decimalRange ⟨minimum, maximum, message⟩)
  | "Pattern" => do
    let value ← texts? members
    let message ← message? members
    some (.pattern ⟨value, message⟩)
  | "Validator" => (texts? members).map .hostValidators
  | "JoinValidation" => (texts? members).map .join
  | "GroupSequence" => (texts? members).map .groupSequence
  | "BeanValidation" => (GroupController.ofMembers? members).map .controller
  | "Constraint" => (Constraint.ofJson? (.object members)).map .constraint
  | "Marker" => (Json.required? "name" Json.asString? members).map .marker
  | _ => none

/-- Decodes an annotation. -/
def ofJson? (json : Json) : Option Annotation := do
  let members ← json.asObject?
  let tag ← Json.required? "type" Json.asString? members
  ofMembers? tag members

end Annotation

end FieldGuard
