import FieldGuard.Engine.Borrowing
import FieldGuard.Engine.Groups
import FieldGuard.Engine.Report

/-!
# `FieldGuard.Engine.Submit`: validating a submitted value

The submitted text is converted and recorded. If the property of the component
can be resolved and all hooks agree, the value is checked by the strategies of the
annotations and by the constraint engine in the groups of the component. All
violations together make one failure.

A component that is not editable, or whose property cannot be resolved, is valid.
-/

set_option autoImplicit false

namespace FieldGuard.Engine

/-- The violation of a complaint about a value. -/
def violationOf (b : Bound) (e : Entry) (value : Value) (c : Complaint) : Violation :=
  ⟨c.text, c.text, b.owner.typeName, b.details.property, value, e.key⟩

/-- The violations that the strategies of entries find. A strategy that fails is skipped. -/
def strategyViolations (env : Environment) (r : Request) (b : Bound) (value : Value) :
    List Entry → StateM Plugins (List Violation)
  | [] => pure []
  | e :: rest => do
    let found ←
      match ← Plugins.strategyFor e.key with
      | none => pure []
      | some s =>
        match ← (Plugins.check env r s e value).run with
        | .ok complaints => pure (complaints.map (violationOf b e value))
        | .error _ => pure []
    let others ← strategyViolations env r b value rest
    pure (found ++ others)

/-- Everything that a value violates. Without groups the constraint engine is not asked. -/
def violations (e : Engine) (c : Component) (b : Bound) (value : Value) :
    StateM Session (List Violation) := do
  let r ← Session.current
  let found ← Session.lookup (strategyViolations e.env r b value b.info.entries)
  let groups ← Session.run (Groups.resolve e.env c.identity b.details true)
  Session.setStage c.clientId .groupsResolved
  let constrained :=
    if groups.isEmpty then []
    else e.env.constraints.validateValue b.owner.typeName b.details.property value groups
  Session.setStage c.clientId .validated
  pure (found ++ constrained)

/-- Validates a value; yields the failure, and what is known about the property then. -/
def validate (e : Engine) (c : Component) (b : Bound) (value : Value) :
    StateM Session (Option Failure × PropertyInfo) := do
  match ← e.violations c b value with
  | [] => pure (none, b.info)
  | first :: rest => do
    let failure ← e.reportIn c.identity (first :: rest)
    pure (failure, b.info.setFact PropertyInfo.violationsKey (.violations (first :: rest)))

/-- The outcome of a failure, if there is one. -/
def outcomeOf : Option Failure → Outcome
  | none => .valid
  | some failure => .failed failure

/-- Validates a value between the hooks. -/
def validateHooked (e : Engine) (c : Component) (b : Bound) (value : Value) :
    StateM Session Outcome := do
  let agreed ← Session.run (Hook.runBefore c value b.info e.hooks)
  let (failure, info) ← if agreed then e.validate c b value else pure (none, b.info)
  Session.change (Hook.runAfter c value info e.hooks)
  Session.setStage c.clientId (if failure.isSome then .failed else .valid)
  pure (outcomeOf failure)

/-- The failure of a text that does not convert. -/
def conversionFailure (c : Component) (fault : ConversionFault) : Failure :=
  { clientId := c.clientId
    message := .error (c.identity.displayName ++ ": " ++ fault.message) }

/-- Adds the message of a failed conversion. -/
def refuse (c : Component) (fault : ConversionFault) : StateM Session Outcome := do
  let failure := conversionFailure c fault
  Session.change fun r => r.addMessages c.clientId failure.messages
  Session.setStage c.clientId .failed
  pure (.failed failure)

/-- The value that is validated: the empty text counts as null unless it is kept. -/
def interpreted (settings : Settings) (value : Value) : Value :=
  if !settings.keepsEmptyText && value.isEmptyText then .null else value

/-- Records and validates a converted value. -/
def accept (e : Engine) (c : Component) (value : Value) : StateM Session Outcome := do
  Session.setStage c.clientId .converted
  Session.change (Recorder.recordAll e.recorders e.env c value)
  let r ← Session.current
  match e.bound? r c with
  | none => pure .valid
  | some b => e.validateHooked c b (interpreted e.env.settings value)

/-- Validates a submitted text. -/
def submit (e : Engine) (c : Component) (submitted : String) : StateM Session Outcome := do
  Session.setStage c.clientId .rawInput
  if !c.editable then pure .valid
  else
    match c.convert submitted with
    | .error fault => refuse c fault
    | .ok value => e.accept c value

end FieldGuard.Engine
