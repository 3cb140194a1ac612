import FieldGuard.Engine.Borrowing
import FieldGuard.Engine.Basic
import FieldGuard.Engine.Groups

/-!
# `FieldGuard.Engine.Render`: configuring a component before it is rendered

The metadata of a component comes from the annotations of its property and from
the constraints of the constraint engine that belong to one of its groups. The
initializers configure the component with it. A component whose property cannot
be resolved is left alone.
-/

set_option autoImplicit false

namespace FieldGuard.Engine

/-- Merges in the metadata of constraints, each through its own strategy. -/
def mergeConstraints (env : Environment) (r : Request) (d : Details) (binding : Option String) :
    Metadata → List Constraint → StateM Plugins Metadata
  | metadata, [] => pure metadata
  | metadata, c :: rest => do
    let found ← Plugins.transform env r (.ofConstraint c)
      (Strategy.constraintEntry c d.property binding)
    mergeConstraints env r d binding ((found.map metadata.merge).getD metadata) rest

/-- The constraints of a property that belong to one of the groups. -/
def activeConstraints (env : Environment) (typeName property : String) (groups : List String) :
    List Constraint :=
  (env.constraints.constraintsOf typeName property).filter fun c => c.appliesToAny groups

/-- The metadata of the constraints that count for the groups of a component. -/
def constraintMetadata (e : Engine) (c : Component) (b : Bound) : StateM Session Metadata := do
  let groups ← Session.run (Groups.resolve e.env c.identity b.details false)
  let r ← Session.current
  Session.lookup (mergeConstraints e.env r b.details c.valueBinding ∅
    (activeConstraints e.env b.owner.typeName b.details.property groups))

/-- Configures a component whose property is resolved. -/
def configure (e : Engine) (c : Component) (b : Bound) : StateM Session (Metadata × Component) := do
  let r ← Session.current
  let own ← Session.lookup (Plugins.metadataOf e.env r b.info)
  let fromConstraints ← e.constraintMetadata c b
  let metadata := own.merge fromConstraints
  Session.setStage c.clientId .configured
  pure (metadata, Initializer.configureAll e.initializers metadata c)

/-- Configures a component; yields its metadata and the component as it is then. -/
def init (e : Engine) (c : Component) : StateM Session (Metadata × Component) := do
  Session.setStage c.clientId .init
  let r ← Session.current
  match e.extract r c with
  | .error _ => pure (∅, c)
  | .ok info => do
    Session.setStage c.clientId .metadataExtracted
    match Bound.of? info with
    | none => pure (∅, c)
    | some b => e.configure c b

end FieldGuard.Engine
