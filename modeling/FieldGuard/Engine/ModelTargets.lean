import FieldGuard.Environment
import FieldGuard.Request.Basic

/-!
# `FieldGuard.Engine.ModelTargets`: the objects of a model validation

A target is an expression whose value is an object, or a path of readable
properties that starts at the object the controller was found on. A target that
leads to no object is left out. The default target alone stands for the owner of
the property.
-/

set_option autoImplicit false

namespace FieldGuard.ModelTargets

/-- Follows a path of readable properties from object to object. -/
def follow (m : TypeModel) : Bean → List String → Option Bean
  | bean, [] => some bean
  | bean, property :: rest =>
    if (m.readableAccessor? bean.typeName property).isSome then
      ((bean.property? property).bind Value.asBean?).bind fun next => follow m next rest
    else none

/-- The object that a target stands for. -/
def resolve? (env : Environment) (page : Page) (source : Bean) (target : String) : Option Bean :=
  if env.evaluator.isWellFormed target then
    if env.evaluator.isValid page.scope target then
      match env.evaluator.valueOf page.scope target with
      | .ok value => value.asBean?
      | .error _ => none
    else none
  else follow env.types source (Text.dotted target)

/-- The objects that a demand wants to be validated, in the order of its targets. -/
def ofDemand (env : Environment) (page : Page) (d : ModelDemand) : List Bean :=
  if d.targets = [defaultTarget] then [d.defaultTarget]
  else d.targets.filterMap (resolve? env page d.source)

end FieldGuard.ModelTargets
