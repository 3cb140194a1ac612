import FieldGuard.Annotation.Basic
import FieldGuard.Dict
import FieldGuard.Text.Cut

/-!
# `FieldGuard.TypeModel.Basic`: descriptions of types

A type model describes the types whose properties are validated: a class has at
most one superclass, every type may have interfaces, and a type declares
properties with a field, an accessor, or both. The model looks types up by name;
the name under which a type is found need not be the one it carries.
-/

set_option autoImplicit false

namespace FieldGuard

/-- How a property is read. -/
inductive Accessor where
  | get
  | is
  deriving DecidableEq, Repr, Inhabited

/-- Class or interface. -/
inductive TypeKind where
  | class_
  | interface
  deriving DecidableEq, Repr, Inhabited

/-- The declaration of a property. -/
structure PropertyDecl where
  name : String
  hasField : Bool := false
  fieldAnnotations : List Annotation := []
  accessor : Option Accessor := some .get
  accessorAnnotations : List Annotation := []
  deriving Inhabited

namespace PropertyDecl

/-- A property with a field and a `get` accessor. -/
def new (name : String) : PropertyDecl :=
  { name, hasField := true }

/-- A property with a field and an `is` accessor. -/
def boolean (name : String) : PropertyDecl :=
  { new name with accessor := some .is }

/-- A property without a field, as interfaces declare it. -/
def accessorOnly (name : String) : PropertyDecl :=
  { new name with hasField := false }

/-- The property with one more annotation on its field. -/
def onField (p : PropertyDecl) (a : Annotation) : PropertyDecl :=
  { p with fieldAnnotations := p.fieldAnnotations ++ [a] }

/-- The property with one more annotation on its accessor. -/
def onAccessor (p : PropertyDecl) (a : Annotation) : PropertyDecl :=
  { p with accessorAnnotations := p.accessorAnnotations ++ [a] }

/-- The property without its accessor. -/
def withoutAccessor (p : PropertyDecl) : PropertyDecl :=
  { p with accessor := none }

/-- All annotations, those of the accessor first. -/
def annotations (p : PropertyDecl) : List Annotation :=
  p.accessorAnnotations ++ p.fieldAnnotations

/-- The annotations of the accessor and of the field, as far as there is an accessor and a field. -/
def presentAnnotations (p : PropertyDecl) : List Annotation :=
  (if p.accessor.isSome then p.accessorAnnotations else [])
    ++ (if p.hasField then p.fieldAnnotations else [])

end PropertyDecl

/-- The declaration of a type. -/
structure TypeDecl where
  name : String
  kind : TypeKind := .class_
  superclass : Option String := none
  interfaces : List String := []
  annotations : List Annotation := []
  properties : List PropertyDecl := []
  deriving Inhabited

namespace TypeDecl

/-- The type with a superclass. -/
def extending (t : TypeDecl) (superclass : String) : TypeDecl :=
  { t with superclass := some superclass }

/-- The type with one more interface. -/
def implementing (t : TypeDecl) (interface : String) : TypeDecl :=
  { t with interfaces := t.interfaces ++ [interface] }

/-- The type with one more annotation. -/
def annotated (t : TypeDecl) (a : Annotation) : TypeDecl :=
  { t with annotations := t.annotations ++ [a] }

/-- The type with one more property. -/
def declaring (t : TypeDecl) (p : PropertyDecl) : TypeDecl :=
  { t with properties := t.properties ++ [p] }

/-- The first declaration of a property by this name. -/
def property? (t : TypeDecl) (name : String) : Option PropertyDecl :=
  t.properties.find? fun p => p.name == name

/-- Name without its package. -/
def simpleName (t : TypeDecl) : String :=
  Text.simpleName t.name

end TypeDecl

/-- The types by the names under which they are looked up. -/
structure TypeModel where
  types : Dict TypeDecl
  deriving Inhabited

namespace TypeModel

/-- The model with one more type, in place of one of the same name. -/
def register (m : TypeModel) (t : TypeDecl) : TypeModel :=
  ⟨m.types.insert t.name t⟩

/-- A model of the given types; of two with one name the later counts. -/
def ofTypes (types : List TypeDecl) : TypeModel :=
  types.foldl register ⟨∅⟩

/-- The type found under a name. -/
def get? (m : TypeModel) (name : String) : Option TypeDecl :=
  m.types.get? name

/-- Whether a type is found under the name. -/
def contains (m : TypeModel) (name : String) : Bool :=
  m.types.contains name

end TypeModel

end FieldGuard
