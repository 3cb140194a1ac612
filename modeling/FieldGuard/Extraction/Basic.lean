import FieldGuard.Environment
import FieldGuard.Request.Basic

/-!
# `FieldGuard.Extraction.Basic`: finding the annotations of a property

A property is meant by a component, by a binding, or by details that are resolved
already. Its annotations are read from the accessor and the field of every
declaration along the hierarchy of the type that owns it. Group controllers are
left out; they do not constrain values. Without an owner there is nothing to read, and no
fault either.

An extractor is given the whole request. Those of the library read its page only.
-/

set_option autoImplicit false

namespace FieldGuard

/-- What a property is meant by. -/
inductive Target where
  | component (c : Component)
  | binding (text : String)
  | details (d : Details)
  deriving Inhabited

/-- What finds the annotations of a property. -/
structure Extractor where
  extract : Environment → Request → Target → Except Fault PropertyInfo

namespace Extraction

/-- The details of a binding, and its text. -/
def locateBinding (env : Environment) (page : Page) (text : String) :
    Except Fault (Details × Option String) :=
  if isTerm text then do
    let details ← env.evaluator.details page.scope ⟨text⟩
    .ok (details, some text)
  else .error (.invalidExpression text)

/-- The details of a property, and the binding they come from. -/
def locate (env : Environment) (page : Page) : Target → Except Fault (Details × Option String)
  | .component c =>
    match c.valueBinding with
    | some text => locateBinding env page text
    | none => .error (.unresolvableBinding (c.clientId ++ " has no value binding"))
  | .binding text => locateBinding env page text
  | .details d => .ok (d, none)

/-- The entry of an annotation that a type declares on a property. -/
def entry (property : String) (binding : Option String) (declaring : TypeDecl)
    (a : Annotation) : Entry :=
  { Entry.ofAnnotation a with
    property := some property, declaredIn := some declaring.name }.withBinding binding

/-- The entries of a property along the hierarchy of a type. -/
def entries (m : TypeModel) (typeName property : String) (binding : Option String) : List Entry :=
  (m.declarations typeName property).flatMap fun (declaring, declared) =>
    (declared.presentAnnotations.filter fun a => !a.isController).map
      (entry property binding declaring)

/-- What is known about a property of an object. -/
def ofOwner (m : TypeModel) (details : Details) (binding : Option String) (owner : Bean) :
    Except Fault PropertyInfo :=
  if !m.contains owner.typeName then .error (.unknownType owner.typeName)
  else if (m.readableAccessor? owner.typeName details.property).isNone then
    .error (.propertyNotFound owner.typeName details.property)
  else .ok (PropertyInfo.ofEntries details (entries m owner.typeName details.property binding))

/-- Finds the annotations of a property. -/
def extract (env : Environment) (page : Page) (target : Target) : Except Fault PropertyInfo := do
  let (details, binding) ← locate env page target
  match details.base with
  | none => .ok (PropertyInfo.ofEntries details [])
  | some owner => ofOwner env.types details binding owner

end Extraction

/-- Name of the standard extractor. -/
def Extractor.standardName : String := "DefaultComponentMetaDataExtractor"

/-- The extractor that reads the page only. -/
def Extractor.ofPage (extract : Environment → Page → Target → Except Fault PropertyInfo) :
    Extractor :=
  ⟨fun env r target => extract env r.page target⟩

/-- The standard extractor. -/
def Extractor.standard : Extractor := .ofPage Extraction.extract

end FieldGuard
