import FieldGuard.Component.Json
import FieldGuard.Constraints.Engine
import FieldGuard.Message

/-!
# `FieldGuard.Outcome`: results of validation

A submitted value is valid, or there is one failure for it.
-/

set_option autoImplicit false

namespace FieldGuard

/-- A failed validation: the message for the user, and what is behind it. -/
structure Failure where
  clientId : String
  message : Message
  /-- The messages of further violations, if they are asked for. -/
  additional : List Message := []
  violations : List Violation := []
  deriving Inhabited

namespace Failure

/-- The message, then the additional ones. -/
def messages (f : Failure) : List Message :=
  f.message :: f.additional

/-- The members of a failure. -/
def toMembers (f : Failure) : List (String × Json) :=
  [("client_id", .string f.clientId), ("message", f.message.toJson),
    ("additional_messages", .array (f.additional.map Message.toJson)),
    ("violations", .array (f.violations.map Violation.toJson))]

/-- The failure as JSON. -/
def toJson (f : Failure) : Json :=
  .ofMembers f.toMembers

end Failure

/-- The result for a submitted value. -/
inductive Outcome where
  | valid
  | failed (failure : Failure)
  deriving Inhabited

namespace Outcome

/-- Whether the value is valid. -/
def isValid : Outcome → Bool
  | .valid => true
  | .failed _ => false

/-- The failure, if there is one. -/
def failure? : Outcome → Option Failure
  | .valid => none
  | .failed f => some f

/-- The outcome as JSON. -/
def toJson : Outcome → Json
  | .valid => .ofMembers [("outcome", .string "valid")]
  | .failed f => .ofMembers (("outcome", .string "failed") :: f.toMembers)

end Outcome

/-- A failed model validation of one object. -/
structure ModelFailure where
  identity : Identity
  targetType : String
  failure : Failure
  deriving Inhabited

/-- The failure as JSON. -/
def ModelFailure.toJson (f : ModelFailure) : Json :=
  .ofMembers [("identity", f.identity.toJson), ("target_type", .string f.targetType),
    ("failure", f.failure.toJson)]

end FieldGuard
