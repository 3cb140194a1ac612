import FieldGuard.Constraints.Wording
import FieldGuard.Email.Address
import FieldGuard.Pattern
import FieldGuard.PropertyInfo

/-!
# `FieldGuard.Constraints.Check`: checking values against constraints

Null satisfies every rule but the one that forbids it. A rule that does not apply
to the kind of a value is satisfied. A constraint is checked together with the
constraints it is composed with, each with its own message, from the outside in.

* `parts`: a constraint and everything it is composed with, in order;
* `breaches_eq_parts`: a value breaks exactly the parts whose own rules it violates.
-/

set_option autoImplicit false

namespace FieldGuard

/-- The number that a value is compared as: of a text, the number it writes. -/
def Value.asNumber? : Value → Option Float
  | .text s => Number.readTrimmedFloat? s
  | value => value.asDecimal?

namespace Rule

/-- Whether the value of a property violates the rule. Equality of properties is
never violated by a single value, nor is a pattern that does not compile. -/
def isViolatedBy (rule : Rule) (value : Value) : Bool :=
  match rule, value with
  | .notNull, value => value.isNull
  | _, .null => false
  | .size least most, .text s =>
    decide (s.length < least.toNat) || (most != unbounded && decide (most.toNat < s.length))
  | .min bound, value => value.asNumber?.any fun x => Number.below x (Number.toFloat bound)
  | .max bound, value => value.asNumber?.any fun x => Number.below (Number.toFloat bound) x
  | .pattern regexp, .text s => (Pattern.compile? regexp).any fun pattern => !pattern.accepts s
  | .email, .text s => !s.isEmpty && !Email.isAddress s
  | _, _ => false

/-- The listed properties whose values an object should hold equal. -/
def equalProperties? : Rule → Option (List String)
  | .equal properties => some properties
  | _ => none

end Rule

/-- One broken part of a constraint. -/
structure Breach where
  template : String
  message : String
  /-- Full name of the annotation type of the constraint. -/
  key : String
  deriving DecidableEq, Repr, Inhabited

namespace Constraint

/-- The breach of the constraint itself. -/
def breach (c : Constraint) : Breach :=
  ⟨c.template, c.wording, c.rule.key⟩

mutual

/-- The constraint, followed by everything it is composed with. -/
def parts : Constraint → List Constraint
  | ⟨rule, groups, message, composing⟩ => ⟨rule, groups, message, composing⟩ :: partsOfAll composing

/-- The parts of several constraints. -/
def partsOfAll : List Constraint → List Constraint
  | [] => []
  | c :: rest => parts c ++ partsOfAll rest

end

mutual

/-- What a value breaks of a constraint and of those it is composed with. -/
def breaches (value : Value) : Constraint → List Breach
  | ⟨rule, groups, message, composing⟩ =>
    (if rule.isViolatedBy value then [breach ⟨rule, groups, message, composing⟩] else [])
      ++ breachesOfAll value composing

/-- What a value breaks of several constraints. -/
def breachesOfAll (value : Value) : List Constraint → List Breach
  | [] => []
  | c :: rest => breaches value c ++ breachesOfAll value rest

end

/-- The breaches of those constraints of a list whose own rules a value violates. -/
def ownBreaches (value : Value) (cs : List Constraint) : List Breach :=
  (cs.filter fun c => c.rule.isViolatedBy value).map breach

mutual

/-- A value breaks exactly the parts whose own rules it violates. -/
theorem breaches_eq_parts (value : Value) (c : Constraint) :
    c.breaches value = ownBreaches value c.parts := by
  cases c with
  | mk rule groups message composing =>
    rw [breaches, parts, breachesOfAll_eq_parts value composing]
    by_cases h : rule.isViolatedBy value = true <;> simp [ownBreaches, h]

theorem breachesOfAll_eq_parts (value : Value) (cs : List Constraint) :
    breachesOfAll value cs = ownBreaches value (partsOfAll cs) := by
  cases cs with
  | nil => rfl
  | cons c rest =>
    rw [breachesOfAll, partsOfAll, breaches_eq_parts value c, breachesOfAll_eq_parts value rest]
    simp [ownBreaches]

end

/-- The messages of everything that a value breaks. -/
def check (c : Constraint) (value : Value) : List String :=
  (c.breaches value).map (·.message)

end Constraint

end FieldGuard
