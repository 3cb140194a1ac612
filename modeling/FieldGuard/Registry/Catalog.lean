import FieldGuard.Dict
import FieldGuard.Fault

/-!
# `FieldGuard.Registry.Catalog`: making plug-ins by name

A catalog knows how to make the plug-in of a name: by handing out one instance
that everybody shares, or by a factory that makes an instance each time and may
fail. A factory may keep a state of its own, so what it answers may depend on all
calls before. The catalog keeps the calls with their answers; each new instance
gets the next serial number.

* `instantiate_unknown`, `instantiate_known`: a name without a factory is not called,
  and any other one is called once.
-/

set_option autoImplicit false

namespace FieldGuard

/-- A call of the factory under a name. -/
structure FactoryCall (α : Type) where
  name : String
  /-- The plug-in, or why there is none. -/
  answer : Except String α
  /-- Whether a new instance was asked for, and not the one that everybody shares. -/
  isFresh : Bool := true

namespace FactoryCall

variable {α : Type}

/-- Whether a plug-in came of the call. -/
def succeeds (call : FactoryCall α) : Bool :=
  call.answer.isOk

/-- How often new instances were asked for. -/
def attempts (calls : List (FactoryCall α)) : Nat :=
  calls.countP (·.isFresh)

/-- How many new instances were made. -/
def created (calls : List (FactoryCall α)) : Nat :=
  calls.countP fun call => call.isFresh && call.succeeds

end FactoryCall

/-- How the plug-in of a name is made. -/
inductive Factory (α : Type) where
  | shared (plugin : α)
  /-- Makes an instance with the given serial number, or says why it cannot. -/
  | fresh (make : Nat → Except String α)
  /-- Makes an instance, or says why it cannot, as the calls before have left it. -/
  | stateful (make : List (FactoryCall α) → Except String α)

namespace Factory

variable {α : Type}

/-- A factory that makes the same plug-in every time. -/
def always (plugin : α) : Factory α :=
  .fresh fun _ => .ok plugin

/-- A factory that fails every time. -/
def never (reason : String) : Factory α :=
  .fresh fun _ => .error reason

/-- What a call answers after other calls. -/
def answer (calls : List (FactoryCall α)) : Factory α → Except String α
  | .shared plugin => .ok plugin
  | .fresh make => make (FactoryCall.created calls + 1)
  | .stateful make => make calls

/-- Whether there is one instance that everybody shares. -/
def isShared : Factory α → Bool
  | .shared _ => true
  | _ => false

end Factory

/-- The factories by name, and the calls of factories, the latest last. -/
structure Catalog (α : Type) where
  factories : Dict (Factory α) := ∅
  calls : List (FactoryCall α) := []
  deriving Inhabited

namespace Catalog

variable {α : Type}

/-- Calls of factories that make instances. -/
def attempts (c : Catalog α) : Nat :=
  FactoryCall.attempts c.calls

/-- Instances that factories have made. -/
def created (c : Catalog α) : Nat :=
  FactoryCall.created c.calls

/-- The catalog with a factory under a name, in place of one that is there. -/
def register (c : Catalog α) (name : String) (factory : Factory α) : Catalog α :=
  { c with factories := c.factories.insert name factory }

/-- A catalog of plug-ins that are made anew each time. -/
def ofList (plugins : List (String × α)) : Catalog α :=
  plugins.foldl (fun c plugin => c.register plugin.1 (.always plugin.2)) {}

/-- Whether there is a factory under the name. -/
def contains (c : Catalog α) (name : String) : Bool :=
  c.factories.contains name

/-- The names in increasing order. -/
def names (c : Catalog α) : List String :=
  c.factories.keys

/-- The call of a factory under a name, as it turns out now. -/
def callOf (c : Catalog α) (name : String) (f : Factory α) : FactoryCall α :=
  ⟨name, f.answer c.calls, !f.isShared⟩

/-- Makes the plug-in of a name. -/
def instantiate (c : Catalog α) (name : String) : Except Fault α × Catalog α :=
  match c.factories.get? name with
  | none => (.error (.classNotFound name), c)
  | some f =>
    let call := c.callOf name f
    (call.answer.mapError (.instantiation name), { c with calls := c.calls ++ [call] })

/-- Makes the first plug-in that can be made under one of the names. -/
def firstOf (c : Catalog α) : List String → Option α × Catalog α
  | [] => (none, c)
  | name :: rest =>
    match c.instantiate name with
    | (.ok plugin, c) => (some plugin, c)
    | (.error _, c) => firstOf c rest

theorem instantiate_unknown {c : Catalog α} {name : String} (h : c.factories.get? name = none) :
    c.instantiate name = (.error (.classNotFound name), c) := by
  simp [instantiate, h]

theorem instantiate_known {c : Catalog α} {name : String} {f : Factory α}
    (h : c.factories.get? name = some f) :
    c.instantiate name
      = ((f.answer c.calls).mapError (.instantiation name),
          { c with calls := c.calls ++ [c.callOf name f] }) := by
  simp [instantiate, h, callOf]

/-- Making a plug-in leaves the factories alone. -/
theorem factories_instantiate (c : Catalog α) (name : String) :
    (c.instantiate name).2.factories = c.factories := by
  unfold instantiate
  split <;> rfl

end Catalog

end FieldGuard
