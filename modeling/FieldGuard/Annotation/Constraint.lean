/-!
# `FieldGuard.Annotation.Constraint`: constraints of the constraint engine

A constraint is a rule with the groups it belongs to, a message of its own if it
has one, and the constraints it is composed with. Without groups it belongs to
the default group.
-/

set_option autoImplicit false

namespace FieldGuard

/-- The group of a constraint without groups. -/
def defaultGroup : String := "Default"

/-- The limit that means there is none. -/
def unbounded : UInt64 := 18446744073709551615

/-- What a constraint demands of a value, or of the properties of an object. -/
inductive Rule where
  | notNull
  | size (min max : UInt64)
  | min (value : Int64)
  | max (value : Int64)
  | pattern (regexp : String)
  | email
  /-- The listed properties of an object hold equal values. -/
  | equal (properties : List String)
  deriving DecidableEq, Repr, Inhabited

/-- Full name of the annotation type that declares the rule. -/
def Rule.key : Rule → String
  | .notNull => "beanval.constraints.NotNull"
  | .size _ _ => "beanval.constraints.Size"
  | .min _ => "beanval.constraints.Min"
  | .max _ => "beanval.constraints.Max"
  | .pattern _ => "beanval.constraints.Pattern"
  | .email => "beanval.constraints.Email"
  | .equal _ => "beanval.constraints.Equal"

/-- A rule with its groups, its own message, and the constraints it is composed with. -/
structure Constraint where
  rule : Rule
  groups : List String := []
  message : Option String := none
  composing : List Constraint := []
  deriving Inhabited, Repr

namespace Constraint

/-- The declared groups; the default group if none is declared. -/
def effectiveGroups (c : Constraint) : List String :=
  if c.groups.isEmpty then [defaultGroup] else c.groups

/-- Whether the constraint belongs to the group. -/
def appliesTo (c : Constraint) (group : String) : Bool :=
  c.effectiveGroups.contains group

/-- Whether the constraint belongs to one of the groups. -/
def appliesToAny (c : Constraint) (groups : List String) : Bool :=
  groups.any c.appliesTo

end Constraint

end FieldGuard
