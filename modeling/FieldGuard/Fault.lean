/-!
# `FieldGuard.Fault`: why an operation fails

None of these reach the end user. A caller skips the component, falls through to
the next candidate or treats a condition as not satisfied. Violated constraints
are no faults.
-/

set_option autoImplicit false

namespace FieldGuard

/-- Why an operation fails. -/
inductive Fault where
  /-- The type has no readable property of this name. -/
  | propertyNotFound (typeName property : String)
  /-- A binding leads nowhere. -/
  | unresolvableBinding (reason : String)
  /-- A text is no expression, or has no value. -/
  | invalidExpression (reason : String)
  /-- A regular expression does not compile. -/
  | invalidPattern (pattern : String)
  /-- The type model has no type of this name. -/
  | unknownType (name : String)
  /-- An annotation or a fact is of another kind than expected. -/
  | unexpectedKind (expected found : String)
  /-- The catalog has no entry of this name. -/
  | classNotFound (name : String)
  /-- The factory of this name fails. -/
  | instantiation (name reason : String)
  /-- The settings are refused. -/
  | configuration (reason : String)
  /-- A plug-in fails for a reason of its own. -/
  | other (reason : String)
  deriving DecidableEq, Repr

namespace Fault

/-- The text that describes a fault. -/
def message : Fault → String
  | .propertyNotFound typeName property => "Property not found: " ++ typeName ++ "." ++ property
  | .unresolvableBinding reason => "Unresolvable binding: " ++ reason
  | .invalidExpression reason => "Invalid expression: " ++ reason
  | .invalidPattern pattern => "Invalid expression: " ++ pattern ++ ": pattern does not compile"
  | .unknownType name => "Unknown type: " ++ name
  | .unexpectedKind expected found =>
    "Unexpected metadata type: expected " ++ expected ++ ", found " ++ found
  | .classNotFound name => "Class not found: " ++ name
  | .instantiation name reason => "Failed to instantiate " ++ name ++ ": " ++ reason
  | .configuration reason => "Configuration error: " ++ reason
  | .other reason => reason

/-- Whether the fault means that a component's property cannot be found. -/
def isResolutionFailure : Fault → Bool
  | .propertyNotFound _ _ | .unresolvableBinding _ | .unknownType _ => true
  | _ => false

end Fault

end FieldGuard
