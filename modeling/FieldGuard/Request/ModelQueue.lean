import FieldGuard.Annotation.Basic
import FieldGuard.Component.Basic

/-!
# `FieldGuard.Request.ModelQueue`: model validations that wait

A controller may ask for objects to be validated as a whole once all fields are
through. What it asks for waits in a queue of its view. Two demands of one
controller, found on the same instance and with the same groups, count as one.
-/

set_option autoImplicit false

namespace FieldGuard

/-- A model validation that a controller asks for. -/
structure ModelDemand where
  /-- The groups left after restrictions. -/
  groups : List String
  controller : GroupController
  /-- The object the controller was found on; relative targets start here. -/
  source : Bean
  /-- The owner of the bound property, which the default target stands for. -/
  defaultTarget : Bean
  identity : Identity
  deriving Inhabited

namespace ModelDemand

/-- Whether two demands count as one. -/
def sameAs (a b : ModelDemand) : Bool :=
  a.source.identity == b.source.identity && a.groups == b.groups && a.controller == b.controller

/-- The targets as they are declared. -/
def targets (d : ModelDemand) : List String :=
  d.controller.modelValidation.targets

end ModelDemand

/-- The demands that wait, by view. -/
structure ModelQueue where
  waiting : Dict (List ModelDemand) := ∅
  deriving Inhabited

namespace ModelQueue

/-- The demands of a view, in the order in which they came. -/
def demands (q : ModelQueue) (view : String) : List ModelDemand :=
  q.waiting.getD view []

/-- Whether a demand counts as one that waits. -/
def isWaiting (q : ModelQueue) (view : String) (d : ModelDemand) : Bool :=
  (q.demands view).any fun waiting => waiting.sameAs d

/-- The queue with one more demand, unless it counts as one that waits. -/
def add (q : ModelQueue) (view : String) (d : ModelDemand) : ModelQueue :=
  if q.isWaiting view d then q
  else ⟨q.waiting.insert view (q.demands view ++ [d])⟩

/-- The queue with more demands, one after the other. -/
def addAll (q : ModelQueue) (view : String) (ds : List ModelDemand) : ModelQueue :=
  ds.foldl (fun q d => q.add view d) q

/-- Whether a view has demands. -/
def hasDemands (q : ModelQueue) (view : String) : Bool :=
  !(q.demands view).isEmpty

/-- The queue without the demands of a view. -/
def clear (q : ModelQueue) (view : String) : ModelQueue :=
  ⟨q.waiting.erase view⟩

theorem demands_insert (q : ModelQueue) (view other : String) (ds : List ModelDemand) :
    (ModelQueue.mk (q.waiting.insert view ds)).demands other
      = if view = other then ds else q.demands other := by
  rw [demands, Dict.getD, Dict.get?_insert]
  split <;> rfl

/-- Demands of one view leave the others alone. -/
theorem demands_add (q : ModelQueue) (view other : String) (d : ModelDemand) :
    (q.add view d).demands other
      = if view = other ∧ q.isWaiting view d = false then q.demands view ++ [d]
        else q.demands other := by
  unfold add
  cases hd : q.isWaiting view d with
  | true => simp
  | false => simp [demands_insert]

theorem demands_clear (q : ModelQueue) (view other : String) :
    (q.clear view).demands other = if view = other then [] else q.demands other := by
  by_cases h : view = other <;> simp [clear, demands, Dict.getD, Dict.get?_erase, h]

end ModelQueue

end FieldGuard
