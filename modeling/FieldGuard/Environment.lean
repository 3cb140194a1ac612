import FieldGuard.Constraints.Engine
import FieldGuard.Evaluation
import FieldGuard.Settings.Basic

/-!
# `FieldGuard.Environment`: what stays the same for all requests
-/

set_option autoImplicit false

namespace FieldGuard

/-- The settings, the described types, and what evaluates expressions and constraints. -/
structure Environment where
  settings : Settings := {}
  types : TypeModel := ⟨∅⟩
  evaluator : Evaluator := .standard
  constraints : ConstraintEngine := .ofTypes types

end FieldGuard
