import FieldGuard.Constraints.Check
import FieldGuard.Annotation.Json
import FieldGuard.TypeModel.Hierarchy
import FieldGuard.Unique
import FieldGuard.Value.Json

/-!
# `FieldGuard.Constraints.Engine`: validating properties and objects

The constraint engine validates group after group and stops at the first group
with violations. A property is held to all constraints that any declaration of it
in the hierarchy of the type carries. An object is held to the constraints of all
its properties, and to those on its type that demand equal properties.

* `firstFound_eq_nil_iff`: validation finds nothing just when no group does.
-/

set_option autoImplicit false

namespace FieldGuard

/-- The results for the first item that has any. -/
def firstFound {α β : Type} (find : α → List β) : List α → List β
  | [] => []
  | a :: rest => match find a with
    | [] => firstFound find rest
    | found => found

/-- Nothing is found just when no item has a result. -/
theorem firstFound_eq_nil_iff {α β : Type} {find : α → List β} {items : List α} :
    firstFound find items = [] ↔ ∀ a ∈ items, find a = [] := by
  induction items with
  | nil => simp [firstFound]
  | cons a rest ih =>
    rw [firstFound]
    cases h : find a with
    | nil => simp [h, ih]
    | cons b bs => simp [h]

namespace Violation

/-- The violation as JSON. -/
def toJson (v : Violation) : Json :=
  .ofMembers [("message", .string v.message), ("message_template", .string v.template),
    ("bean_type", .string v.typeName), ("property_path", .string v.path),
    ("invalid_value", v.invalidValue.toJson), ("constraint_key", .string v.key)]

/-- The violation of a property by a breach of one of its constraints. -/
def ofBreach (typeName property : String) (value : Value) (b : Breach) : Violation :=
  ⟨b.message, b.template, typeName, property, value, b.key⟩

end Violation

/-- What validates values and objects. -/
structure ConstraintEngine where
  /-- The constraints of a property of a type. -/
  constraintsOf : String → String → List Constraint
  /-- The messages of everything that a value breaks of a constraint, whatever its groups. -/
  check : Constraint → Value → List String
  /-- Validates a value for a property of a type. -/
  validateValue : (typeName property : String) → Value → (groups : List String) → List Violation
  /-- Validates an object. -/
  validate : Bean → (groups : List String) → List Violation

namespace Constraints

/-- What a value for a property violates of some constraints in one group. -/
def valueViolations (typeName property : String) (constraints : List Constraint) (value : Value)
    (group : String) : List Violation :=
  ((constraints.filter fun c => c.appliesTo group).flatMap fun c => c.breaches value).map
    (Violation.ofBreach typeName property value)

/-- Whether every two neighbours are the same value. -/
def allSame : List Value → Bool
  | a :: b :: rest => a.same b && allSame (b :: rest)
  | _ => true

/-- What an object violates of a constraint on its type. -/
def objectViolation? (bean : Bean) (c : Constraint) : Option Violation :=
  match c.rule.equalProperties? with
  | none => none
  | some properties =>
    let values := properties.map bean.valueOf
    if allSame values then none
    else
      let breach := c.breach
      some ⟨breach.message, breach.template, bean.typeName, "", values[1]?.getD .null, breach.key⟩

end Constraints

namespace TypeModel

/-- All constraints of a property along the hierarchy. -/
def constraintsOf (m : TypeModel) (typeName property : String) : List Constraint :=
  (m.declarations typeName property).flatMap fun declared =>
    declared.2.annotations.filterMap Annotation.asConstraint?

/-- The constraints on a type and its supertypes themselves. -/
def classConstraints (m : TypeModel) (typeName : String) : List Constraint :=
  (m.classAnnotations typeName).filterMap Annotation.asConstraint?

/-- The properties with constraints, in the order of the hierarchy. -/
def constrainedProperties (m : TypeModel) (typeName : String) : List String :=
  (((m.hierarchy typeName).flatMap (·.properties)).filter fun p =>
    p.annotations.any Annotation.isConstraint).foldl (fun names p => addUnique names p.name) []

/-- What an object violates in one group: first the constraints of its properties,
then those of its type. -/
def objectViolations (m : TypeModel) (bean : Bean) (group : String) : List Violation :=
  ((m.constrainedProperties bean.typeName).flatMap fun property =>
      Constraints.valueViolations bean.typeName property (m.constraintsOf bean.typeName property)
        (bean.valueOf property) group)
    ++ ((m.classConstraints bean.typeName).filter fun c => c.appliesTo group).filterMap
        (Constraints.objectViolation? bean)

end TypeModel

/-- The constraint engine over the annotations of a type model. -/
def ConstraintEngine.ofTypes (m : TypeModel) : ConstraintEngine where
  constraintsOf := m.constraintsOf
  check := Constraint.check
  validateValue := fun typeName property value groups =>
    firstFound (Constraints.valueViolations typeName property (m.constraintsOf typeName property) value)
      groups
  validate := fun bean groups => firstFound (m.objectViolations bean) groups

end FieldGuard
