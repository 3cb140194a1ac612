import FieldGuard.Json.Decode
import FieldGuard.Value.Basic

/-!
# `FieldGuard.Value.Json`: values as JSON

A whole number in the 64-bit signed range is an integer; any other number is a
decimal. An object of JSON with a text `type` is an object of that type, its
properties in the member `properties`. Arrays are no values. A decimal that is
not finite has no number in JSON and is written as `null`.
-/

set_option autoImplicit false

namespace FieldGuard.Value

mutual

/-- The value as JSON. -/
def toJson : Value → Json
  | .null => .null
  | .bool b => .bool b
  | .integer n => .int n.toInt
  | .decimal x => .ofFloat x
  | .text s => .string s
  | .object ⟨_, typeName, properties⟩ =>
    .object [("properties", .object (propertiesToJson properties)), ("type", .string typeName)]

/-- The properties of an object as members. -/
def propertiesToJson : List (String × Value) → List (String × Json)
  | [] => []
  | (name, value) :: rest => (name, toJson value) :: propertiesToJson rest

end

/-- A number as a value. -/
def ofWhole (n : Int) : Value :=
  match Number.int64? n with
  | some i => .integer i
  | none => .decimal (Float.ofInt n)

mutual

/-- Decodes a value. -/
def ofJson? : Json → Option Value
  | .null => some .null
  | .bool b => some (.bool b)
  | .int n => some (ofWhole n)
  | .float x => some (.decimal x)
  | .string s => some (.text s)
  | .array _ => none
  | .object members => do
    let typeName ← Json.required? "type" Json.asString? members
    let properties ← propertiesOf? members
    some (.object ⟨0, typeName, properties⟩)

/-- The properties in the member `properties`; none if it is missing. -/
def propertiesOf? : List (String × Json) → Option (List (String × Value))
  | [] => some []
  | (name, value) :: rest =>
    if name = "properties" then
      match value with
      | .object members => valuesOf? members
      | _ => none
    else propertiesOf? rest

/-- Decodes the value of every member. -/
def valuesOf? : List (String × Json) → Option (List (String × Value))
  | [] => some []
  | (name, value) :: rest =>
    (ofJson? value).bind fun v => (valuesOf? rest).map ((name, v) :: ·)

end

end FieldGuard.Value

namespace FieldGuard.Record

/-- The object as JSON. -/
def toJson (bean : Bean) : Json :=
  Value.toJson (.object bean)

/-- Decodes an object. -/
def ofJson? (json : Json) : Option Bean :=
  (Value.ofJson? json).bind Value.asBean?

end FieldGuard.Record
