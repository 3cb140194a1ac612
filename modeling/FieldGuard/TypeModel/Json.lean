import FieldGuard.Annotation.Json
import FieldGuard.TypeModel.Basic

/-!
# `FieldGuard.TypeModel.Json`: type models as JSON

A missing accessor is `get`, and `null` is none. A model is an object that maps
the names under which types are looked up to their declarations.
-/

set_option autoImplicit false

namespace FieldGuard

namespace Accessor

/-- Name of an accessor. -/
def name : Accessor → String
  | .get => "get"
  | .is => "is"

/-- The accessor of a name. -/
def ofName? : String → Option Accessor
  | "get" => some .get
  | "is" => some .is
  | _ => none

@[simp] theorem ofName?_name (a : Accessor) : ofName? a.name = some a := by
  cases a <;> rfl

end Accessor

namespace TypeKind

/-- Name of a kind of types. -/
def name : TypeKind → String
  | .class_ => "class"
  | .interface => "interface"

/-- The kind of a name. -/
def ofName? : String → Option TypeKind
  | "class" => some .class_
  | "interface" => some .interface
  | _ => none

@[simp] theorem ofName?_name (k : TypeKind) : ofName? k.name = some k := by
  cases k <;> rfl

end TypeKind

/-- Decodes an array of annotations. -/
def Annotation.listOf? : Json → Option (List Annotation) :=
  Json.listOf? Annotation.ofJson?

/-- Annotations as JSON. -/
def Annotation.listToJson (annotations : List Annotation) : Json :=
  .array (annotations.map Annotation.toJson)

namespace PropertyDecl

/-- The declaration as JSON. -/
def toJson (p : PropertyDecl) : Json :=
  .ofMembers [("name", .string p.name), ("has_field", .bool p.hasField),
    ("field_annotations", Annotation.listToJson p.fieldAnnotations),
    ("accessor", Json.orNull (fun a => .string a.name) p.accessor),
    ("accessor_annotations", Annotation.listToJson p.accessorAnnotations)]

/-- Decodes the accessor: `null` is none. -/
def accessorOf? : Json → Option (Option Accessor)
  | .null => some none
  | .string name => (Accessor.ofName? name).map some
  | _ => none

/-- Decodes a declaration. -/
def ofJson? (json : Json) : Option PropertyDecl := do
  let members ← json.asObject?
  let name ← Json.required? "name" Json.asString? members
  let hasField ← Json.defaulted? "has_field" false Json.asBool? members
  let fieldAnnotations ← Json.defaulted? "field_annotations" [] Annotation.listOf? members
  let accessor ← Json.defaulted? "accessor" (some .get) accessorOf? members
  let accessorAnnotations ← Json.defaulted? "accessor_annotations" [] Annotation.listOf? members
  some ⟨name, hasField, fieldAnnotations, accessor, accessorAnnotations⟩

end PropertyDecl

namespace TypeDecl

/-- The declaration as JSON. -/
def toJson (t : TypeDecl) : Json :=
  .ofMembers [("name", .string t.name), ("kind", .string t.kind.name),
    ("superclass", Json.orNull .string t.superclass), ("interfaces", .strings t.interfaces),
    ("annotations", Annotation.listToJson t.annotations),
    ("properties", .array (t.properties.map PropertyDecl.toJson))]

/-- Decodes a declaration. -/
def ofJson? (json : Json) : Option TypeDecl := do
  let members ← json.asObject?
  let name ← Json.required? "name" Json.asString? members
  let kind ← Json.defaulted? "kind" .class_
    (fun json => json.asString?.bind TypeKind.ofName?) members
  let superclass ← Json.optional? "superclass" Json.asString? members
  let interfaces ← Json.defaulted? "interfaces" [] Json.strings? members
  let annotations ← Json.defaulted? "annotations" [] Annotation.listOf? members
  let properties ← Json.defaulted? "properties" [] (Json.listOf? PropertyDecl.ofJson?) members
  some ⟨name, kind, superclass, interfaces, annotations, properties⟩

end TypeDecl

namespace TypeModel

/-- The model as JSON. -/
def toJson (m : TypeModel) : Json :=
  .object (m.types.pairs.map fun (name, t) => (name, t.toJson))

/-- Decodes a model. -/
def ofJson? (json : Json) : Option TypeModel :=
  (Json.pairsOf? TypeDecl.ofJson? json).map fun pairs => ⟨Dict.ofList pairs⟩

end TypeModel

end FieldGuard
