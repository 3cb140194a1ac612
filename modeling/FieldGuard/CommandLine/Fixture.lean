import FieldGuard.Component.Json
import FieldGuard.Json.Printer
import FieldGuard.Request.Basic
import FieldGuard.TypeModel.Json
import FieldGuard.Value.Json

/-!
# `FieldGuard.CommandLine.Fixture`: a page to try the library on

A fixture describes types, the objects in scope and the components of one view,
each with the text that is submitted for it, if any. Names, and what is submitted,
may be written without quotes: `"submitted": 17` submits the text `17`. Annotations
and the values inside objects are read as they are written.
-/

set_option autoImplicit false

namespace FieldGuard.CommandLine

/-- A component of a fixture. -/
structure FixtureComponent where
  component : Component
  /-- Name of the converter. -/
  converter : Option String
  submitted : Option String
  deriving Inhabited

/-- A page: types, objects and components. -/
structure Fixture where
  view : String
  types : List TypeDecl
  beans : List (String × Bean)
  components : List FixtureComponent
  deriving Inhabited

/-! ### Texts without quotes -/

/-- A text, for which a number, a truth value or `null` may stand without quotes. -/
def unquoted : Json → Json
  | .array items => .array items
  | .object members => .object members
  | .string text => .string text
  | json => .string json.compact

/-- A text that may be missing; `null` is none. -/
def unquotedOption : Json → Json
  | .null => .null
  | json => unquoted json

/-- Changes every item of an array. -/
def mapItems (f : Json → Json) : Json → Json
  | .array items => .array (items.map f)
  | json => json

/-- Changes every member of an object. -/
def mapValues (f : Json → Json) : Json → Json
  | .object members => .object (members.map fun (name, value) => (name, f value))
  | json => json

/-- Changes the members of an object that have a rule. -/
def mapMembers (rules : List (String × (Json → Json))) : Json → Json
  | .object members =>
    .object (members.map fun (name, value) => (name, ((rules.lookup name).getD id) value))
  | json => json

/-- The declaration of a property, its name in quotes. -/
def quotedProperty : Json → Json :=
  mapMembers [("name", unquoted)]

/-- The declaration of a type, its names in quotes. -/
def quotedType : Json → Json :=
  mapMembers [("name", unquoted), ("superclass", unquotedOption),
    ("interfaces", mapItems unquoted), ("properties", mapItems quotedProperty)]

/-- A component of a fixture, its converter and what is submitted in quotes. -/
def quotedComponent : Json → Json :=
  mapMembers [("converter", unquotedOption), ("submitted", unquotedOption)]

/-- A fixture, its texts in quotes. -/
def quotedFixture : Json → Json :=
  mapMembers [("view_id", unquoted), ("types", mapItems quotedType),
    ("beans", mapValues (mapMembers [("type", unquoted)])),
    ("components", mapItems quotedComponent)]

/-! ### Decoding -/

/-- Decodes a component of a fixture. -/
def FixtureComponent.ofJson? (json : Json) : Option FixtureComponent := do
  let members ← json.asObject?
  let component ← Component.ofJson? json
  let converter ← Json.optional? "converter" Json.asString? members
  let submitted ← Json.optional? "submitted" Json.asString? members
  some { component, converter, submitted }

namespace Fixture

/-- Decodes a fixture. -/
def ofJson? (json : Json) : Option Fixture := do
  let members ← (quotedFixture json).asObject?
  let view ← Json.required? "view_id" Json.asString? members
  let types ← Json.defaulted? "types" [] (Json.listOf? TypeDecl.ofJson?) members
  let beans ← Json.defaulted? "beans" [] (Json.pairsOf? Record.ofJson?) members
  let components ← Json.defaulted? "components" [] (Json.listOf? FixtureComponent.ofJson?) members
  some { view, types, beans, components }

/-- The objects in scope, each an instance of its own. -/
def scope (f : Fixture) : Scope :=
  let (pairs, _) := Value.numberProperties 1 (f.beans.map fun (name, bean) => (name, .object bean))
  Dict.ofList pairs

/-- The request of a fixture, for its own view or another one. -/
def request (f : Fixture) (view : Option String) : FieldGuard.Request :=
  .new (view.getD f.view) f.scope

/-- The components with their converters and submitted texts, or the first converter
that does not exist. -/
def converted : List FixtureComponent → Except String (List (Component × Option String))
  | [] => .ok []
  | c :: rest => do
    let converter ←
      match c.converter with
      | none => .ok none
      | some name =>
        match Converter.ofName? name with
        | some converter => .ok (some converter)
        | none => .error name
    let others ← converted rest
    .ok (({ c.component with converter }, c.submitted) :: others)

end Fixture

end FieldGuard.CommandLine
