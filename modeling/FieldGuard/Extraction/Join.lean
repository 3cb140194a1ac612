import FieldGuard.Binding.Edit
import FieldGuard.Extraction.Basic

/-!
# `FieldGuard.Extraction.Join`: borrowing the constraints of other properties

A join names its targets as bindings or relative to the binding it was found for.
Extraction for a join makes all targets absolute, so that the entries mean the
same away from the component they came from.
-/

set_option autoImplicit false

namespace FieldGuard

namespace Entry

/-- A target as a binding; nothing for a relative one without a binding to start from. -/
def absoluteTarget? (e : Entry) (target : String) : Option String :=
  if isTerm target then some target
  else e.binding?.map fun binding => (Binding.resolvePath ⟨binding⟩ target).text

/-- The targets of a join as bindings. -/
def joinTargets (e : Entry) : Except Fault (List String) := do
  let targets ← e.join
  .ok (targets.filterMap e.absoluteTarget?)

/-- Whether the entry is one of a join. -/
def isJoin (e : Entry) : Bool :=
  e.key == Annotation.Kind.join.key

/-- The entry with its targets made absolute, if that is possible for all that are left. -/
def withAbsoluteTargets (e : Entry) : Except Fault Entry :=
  if e.isJoin then do
    let targets ← e.joinTargets
    .ok (if targets.all isTerm then e.withAnnotation (.join targets) else e)
  else .ok e

end Entry

namespace Extraction

/-- Makes the targets of all joins absolute. -/
def withAbsoluteTargets : List Entry → Except Fault (List Entry)
  | [] => .ok []
  | e :: rest => do
    let e ← e.withAbsoluteTargets
    let rest ← withAbsoluteTargets rest
    .ok (e :: rest)

/-- Finds the annotations of a property, with the targets of joins made absolute. -/
def extractForJoin (env : Environment) (page : Page) (target : Target) :
    Except Fault PropertyInfo := do
  let info ← extract env page target
  let entries ← withAbsoluteTargets info.entries
  .ok { info with entries }

/-- The entries that a join borrows from one target. Joins are not followed, and a
target that leads nowhere lends nothing. -/
def borrowed (env : Environment) (page : Page) (target : String) : List Entry :=
  match extractForJoin env page (.binding target) with
  | .ok info => info.entries.filter fun e => !e.isJoin
  | .error _ => []

end Extraction

/-- The extractor that makes the targets of joins absolute. -/
def Extractor.forJoin : Extractor := .ofPage Extraction.extractForJoin

end FieldGuard
