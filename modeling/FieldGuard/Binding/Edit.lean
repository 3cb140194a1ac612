import FieldGuard.Binding.Basic
import FieldGuard.Text.Cut

/-!
# `FieldGuard.Binding.Edit`: editing binding expressions

An edit always appends or replaces the last step with dot syntax, whatever
syntax the step had before.
-/

set_option autoImplicit false

namespace FieldGuard.Binding

/-- The inside of an expression followed by a dot and a path. -/
def dot (inside path : List Char) : Binding :=
  wrap (inside ++ '.' :: path)

/-- The binding with its last step replaced. -/
def replaceProperty (b : Binding) (property : String) : Binding :=
  match (splitLast b.inside).1 with
  | some base => dot base property.toList
  | none => wrap property.toList

/-- The binding with one more step. -/
def addProperty (b : Binding) (property : String) : Binding :=
  dot b.inside property.toList

/-- Resolves a path relative to the binding. If the first name of the path names
the nearest of the bases it can name, the rest of the path continues there;
otherwise the path takes the place of the last step. -/
def resolvePath (b : Binding) (path : String) : Binding :=
  let (first, rest) :=
    match Text.cutFirst? '.' path.toList with
    | some (first, rest) => (String.ofList first, some (String.ofList rest))
    | none => (path, none)
  match b.bases.find? fun base => base.property == first with
  | some anchor =>
    match rest with
    | some rest => anchor.addProperty rest
    | none => anchor
  | none => b.replaceProperty path

end FieldGuard.Binding
