import FieldGuard.Environment
import FieldGuard.Request.Basic

/-!
# `FieldGuard.Hook`: hooks around the validation of a component

A hook runs before and after a component is validated, and may keep it from being
validated. A recorder sees every converted value.
-/

set_option autoImplicit false

namespace FieldGuard

/-- What runs around the validation of a component. -/
structure Hook where
  /-- Whether the component is validated. -/
  before : Component → Value → PropertyInfo → Request → Bool × Request :=
    fun _ _ _ request => (true, request)
  after : Component → Value → PropertyInfo → Request → Request :=
    fun _ _ _ request => request

namespace Hook

/-- Runs all hooks before a validation; all have to agree to it. -/
def runBefore (c : Component) (value : Value) (info : PropertyInfo) :
    List Hook → Request → Bool × Request
  | [], request => (true, request)
  | hook :: rest, request =>
    let (agreed, request) := hook.before c value info request
    let (others, request) := runBefore c value info rest request
    (agreed && others, request)

/-- Runs all hooks after a validation. -/
def runAfter (c : Component) (value : Value) (info : PropertyInfo) (hooks : List Hook)
    (request : Request) : Request :=
  hooks.foldl (fun request hook => hook.after c value info request) request

end Hook

/-- What sees every converted value. -/
structure Recorder where
  record : Environment → Component → Value → Request → Request

namespace Recorder

/-- Records the value under the resolved names of its property, or under the inside of
a binding that does not resolve. -/
def recordUnderProperty (env : Environment) (c : Component) (value : Value) (request : Request) :
    Request :=
  match c.valueBinding with
  | none => request
  | some text =>
    let binding : Binding := ⟨text⟩
    let key :=
      match env.evaluator.details request.page.scope binding with
      | .ok details => details.key
      | .error _ => String.ofList binding.inside
    request.record key value

/-- The standard recorder. -/
def standard : Recorder := ⟨recordUnderProperty⟩

/-- Runs recorders one after the other. -/
def recordAll (recorders : List Recorder) (env : Environment) (c : Component) (value : Value)
    (request : Request) : Request :=
  recorders.foldl (fun request r => r.record env c value request) request

end Recorder

end FieldGuard
