import FieldGuard.Fault
import FieldGuard.Pattern.Parser

/-!
# `FieldGuard.Pattern`: patterns for whole values

A pattern is written between the start and the end of the text before it is
read, so that it has to match the whole of a value. As this happens to the text
of the pattern, parentheses that do not pair up inside it may pair up with those
around it.

Expressions are read and matched in the dialect of a common library, after its
documentation. The limits are not the same: that library refuses a pattern that
compiles to more than ten megabytes or whose groups nest deeper than 250 levels, and
here there is no limit of either kind. No result about all values or all constraints
depends on how a pattern is matched.
-/

set_option autoImplicit false

namespace FieldGuard

/-- A pattern that compiles. -/
structure Pattern where
  source : String
  expression : Pattern.Expression
  deriving Repr, Inhabited

namespace Pattern

/-- The text of a pattern between the start and the end of the whole text. -/
def anchored (source : String) : String :=
  "^(?:" ++ source ++ ")$"

/-- Compiles a pattern. -/
def compile? (source : String) : Option Pattern :=
  (Expression.read? (anchored source).toList).map fun expression => ⟨source, expression⟩

/-- Compiles a pattern, or says that it does not compile. -/
def compile (source : String) : Except Fault Pattern :=
  match compile? source with
  | some pattern => .ok pattern
  | none => .error (.invalidPattern source)

/-- Whether a text matches. -/
def accepts (pattern : Pattern) (text : String) : Bool :=
  pattern.expression.occursIn text.toList

end Pattern

end FieldGuard
