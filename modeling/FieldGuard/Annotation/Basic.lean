import FieldGuard.Annotation.Constraint
import FieldGuard.Number.Binary64

/-!
# `FieldGuard.Annotation.Basic`: what types and properties are annotated with

Annotations declare the constraints of properties, borrow those of other
properties, order the groups of a type, switch groups on and off for a view, or
mean nothing to this library.
-/

set_option autoImplicit false

namespace FieldGuard

/-- The target that stands for the owner of the validated property. -/
def defaultTarget : String := "#\x7bdefault\x7d"

/-- Limits on the number of characters of a text. -/
structure LengthLimits where
  minimum : UInt64 := 0
  maximum : UInt64 := unbounded
  message : Option String := none
  deriving DecidableEq, Repr, Inhabited

/-- Limits on a whole number. -/
structure WholeRange where
  minimum : Int64 := Int64.minValue
  maximum : Int64 := Int64.maxValue
  message : Option String := none
  deriving DecidableEq, Inhabited

/-- Limits on a number. -/
structure DecimalRange where
  minimum : Float := Number.least
  maximum : Float := Number.largest
  message : Option String := none
  deriving Inhabited

/-- Regular expressions that all have to match the whole value. -/
structure Patterns where
  value : List String
  message : Option String := none
  deriving DecidableEq, Repr, Inhabited

/-- Which objects are validated as a whole, if any. -/
structure ModelValidation where
  isActive : Bool := false
  targets : List String := [defaultTarget]
  deriving DecidableEq, Repr, Inhabited

/-- Switches groups on or off for views, or asks for a model validation. -/
structure GroupController where
  viewIds : List String := ["*"]
  useGroups : List String := [defaultGroup]
  restrictGroups : List String := []
  conditions : List String := ["#\x7btrue\x7d"]
  modelValidation : ModelValidation := {}
  deriving DecidableEq, Repr, Inhabited

/-- Whether the controller concerns the view: by name, or by the name for every view. -/
def GroupController.matchesView (c : GroupController) (view : String) : Bool :=
  c.viewIds.any fun candidate => candidate == view || candidate == "*"

/-- What a type or a property is annotated with. -/
inductive Annotation where
  | required (message : Option String)
  | length (limits : LengthLimits)
  | wholeRange (range : WholeRange)
  | decimalRange (range : DecimalRange)
  | pattern (patterns : Patterns)
  /-- Validators that the host runs. -/
  | hostValidators (names : List String)
  /-- Borrows the constraints of other properties. -/
  | join (targets : List String)
  /-- The groups of a type, in order. -/
  | groupSequence (groups : List String)
  | controller (controller : GroupController)
  | constraint (constraint : Constraint)
  /-- An annotation that means nothing here. -/
  | marker (name : String)
  deriving Inhabited

namespace Annotation

/-- The kinds of annotations that plug-ins ask for by type. -/
inductive Kind where
  | required
  | length
  | wholeRange
  | decimalRange
  | pattern
  | hostValidators
  | join
  | groupSequence
  | controller
  | constraint
  | marker
  deriving DecidableEq, Repr

/-- Kind of an annotation. -/
def kind : Annotation → Kind
  | .required _ => .required
  | .length _ => .length
  | .wholeRange _ => .wholeRange
  | .decimalRange _ => .decimalRange
  | .pattern _ => .pattern
  | .hostValidators _ => .hostValidators
  | .join _ => .join
  | .groupSequence _ => .groupSequence
  | .controller _ => .controller
  | .constraint _ => .constraint
  | .marker _ => .marker

/-- Full name of the annotation type of a kind; constraints share the name of their package. -/
def Kind.key : Kind → String
  | .required => "extval.property.Required"
  | .length => "extval.property.Length"
  | .wholeRange => "extval.property.LongRange"
  | .decimalRange => "extval.property.DoubleRange"
  | .pattern => "extval.property.Pattern"
  | .hostValidators => "extval.property.Validator"
  | .join => "extval.property.JoinValidation"
  | .groupSequence => "beanval.GroupSequence"
  | .controller => "extval.beanval.BeanValidation"
  | .constraint => "beanval.constraints"
  | .marker => ""

/-- Full name of the annotation type. -/
def key : Annotation → String
  | .constraint c => c.rule.key
  | .marker name => name
  | a => a.kind.key

/-- The constraint that this declares. -/
def asConstraint? : Annotation → Option Constraint
  | .constraint c => some c
  | _ => none

/-- The controller that this is. -/
def asController? : Annotation → Option GroupController
  | .controller c => some c
  | _ => none

/-- The group sequence that this is. -/
def asGroupSequence? : Annotation → Option (List String)
  | .groupSequence groups => some groups
  | _ => none

/-- Whether this declares a constraint of the constraint engine. -/
def isConstraint (a : Annotation) : Bool := a.asConstraint?.isSome

/-- Whether this is a group controller. -/
def isController (a : Annotation) : Bool := a.asController?.isSome

end Annotation

end FieldGuard
