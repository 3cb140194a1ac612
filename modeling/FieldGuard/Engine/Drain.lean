import FieldGuard.Engine.ModelTargets
import FieldGuard.Engine.Report

/-!
# `FieldGuard.Engine.Drain`: validating whole objects

After all fields, the model validations that wait for the view are taken from the
queue. Every target is validated by the constraint engine in the groups of its
demand, and failures are reported like those of fields.
-/

set_option autoImplicit false

namespace FieldGuard.Engine

/-- Validates one object for a demand. -/
def validateTarget (e : Engine) (d : ModelDemand) (target : Bean) :
    StateM Session (Option ModelFailure) := do
  let failure ← e.reportIn d.identity (e.env.constraints.validate target d.groups)
  pure (failure.map fun f => ⟨d.identity, target.typeName, f⟩)

/-- Validates objects for a demand, one after the other. -/
def validateTargets (e : Engine) (d : ModelDemand) : List Bean → StateM Session (List ModelFailure)
  | [] => pure []
  | target :: rest => do
    let failure ← e.validateTarget d target
    let others ← e.validateTargets d rest
    pure (failure.toList ++ others)

/-- Validates the objects of demands, one after the other. A demand without groups
validates nothing. -/
def validateDemands (e : Engine) : List ModelDemand → StateM Session (List ModelFailure)
  | [] => pure []
  | d :: rest => do
    let r ← Session.current
    let failures ←
      if d.groups.isEmpty then pure []
      else e.validateTargets d (ModelTargets.ofDemand e.env r.page d)
    let others ← e.validateDemands rest
    pure (failures ++ others)

/-- Takes what waits for the view from the queue and validates it. -/
def drain (e : Engine) : StateM Session (List ModelFailure) := do
  let waiting ← Session.run fun r =>
    (r.queue.demands r.page.view, { r with queue := r.queue.clear r.page.view })
  e.validateDemands waiting

end FieldGuard.Engine
