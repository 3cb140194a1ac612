import FieldGuard.Extraction.Basic

/-!
# `FieldGuard.Extraction.Controllers`: finding group controllers

Controllers stand on types and on properties. Only those that concern the view
are found.
-/

set_option autoImplicit false

namespace FieldGuard

namespace TypeModel

/-- The controllers for a view on a type and its supertypes. -/
def classControllers (m : TypeModel) (view typeName : String) : List GroupController :=
  ((m.classAnnotations typeName).filterMap Annotation.asController?).filter (·.matchesView view)

/-- The controllers for a view on the declarations of a property along the hierarchy. -/
def propertyControllers (m : TypeModel) (view typeName property : String) : List GroupController :=
  (((m.declarations typeName property).flatMap fun declared => declared.2.presentAnnotations).filterMap
    Annotation.asController?).filter (·.matchesView view)

end TypeModel

namespace Extraction

/-- Finds the controllers of a property. -/
def extractControllers (env : Environment) (page : Page) (target : Target) :
    Except Fault PropertyInfo := do
  let (details, _) ← locate env page target
  let controllers :=
    match details.base with
    | some owner => env.types.propertyControllers page.view owner.typeName details.property
    | none => []
  .ok (PropertyInfo.ofEntries details (controllers.map fun c =>
    { Entry.ofAnnotation (.controller c) with property := some details.property }))

end Extraction

/-- The extractor of controllers. -/
def Extractor.controllers : Extractor := .ofPage Extraction.extractControllers

end FieldGuard
