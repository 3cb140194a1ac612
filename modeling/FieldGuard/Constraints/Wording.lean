import FieldGuard.Annotation.Basic
import FieldGuard.Pattern.CharClass

/-!
# `FieldGuard.Constraints.Wording`: messages of violated constraints

A constraint without a message of its own has a standard one. In a message, the
name of a parameter of the rule in braces stands for its value. Other names in
braces are left in place, among them the slot for the label of a component.

* `fill_of_no_brace`: a message without a brace stays as it is.
-/

set_option autoImplicit false

namespace FieldGuard

namespace Rule

/-- The standard message of a rule. -/
def standardMessage : Rule → String
  | .notNull => "may not be null"
  | .size _ most =>
    if most = unbounded then "size must be at least \x7bmin\x7d"
    else "size must be between \x7bmin\x7d and \x7bmax\x7d"
  | .min _ => "must be greater than or equal to \x7bvalue\x7d"
  | .max _ => "must be less than or equal to \x7bvalue\x7d"
  | .pattern _ => "must match \"\x7bregexp\x7d\""
  | .email => "not a well-formed email address"
  | .equal _ => "\x7bproperties\x7d must be equal"

/-- The value of a parameter of a rule. -/
def parameter? (rule : Rule) (name : String) : Option String :=
  match rule, name with
  | .size least _, "min" => some (toString least.toNat)
  | .size _ most, "max" => some (toString most.toNat)
  | .min value, "value" => some (toString value.toInt)
  | .max value, "value" => some (toString value.toInt)
  | .pattern regexp, "regexp" => some regexp
  | .equal properties, "properties" => some (", ".intercalate properties)
  | _, _ => none

end Rule

namespace Wording

/-- Fills in the values of names in braces. The first `skip` characters belong to a
name that has been replaced. -/
def fillFrom (valueOf? : String → Option String) : Nat → List Char → List Char
  | _, [] => []
  | skip + 1, _ :: rest => fillFrom valueOf? skip rest
  | 0, c :: rest =>
    let name := rest.takeWhile Pattern.Property.isWord
    if c = '\x7b' ∧ name ≠ [] ∧ (rest.drop name.length).head? = some '\x7d' then
      match valueOf? (String.ofList name) with
      | some value => value.toList ++ fillFrom valueOf? (name.length + 1) rest
      | none => c :: fillFrom valueOf? 0 rest
    else c :: fillFrom valueOf? 0 rest

/-- Fills in the values of names in braces. -/
def fill (valueOf? : String → Option String) (template : String) : String :=
  String.ofList (fillFrom valueOf? 0 template.toList)

theorem fillFrom_of_no_brace {valueOf? : String → Option String} {cs : List Char}
    (h : '\x7b' ∉ cs) : fillFrom valueOf? 0 cs = cs := by
  induction cs with
  | nil => rfl
  | cons c rest ih =>
    have hc : c ≠ '\x7b' := fun e => h (e ▸ List.mem_cons_self)
    have hrest : '\x7b' ∉ rest := fun hr => h (List.mem_cons_of_mem _ hr)
    rw [fillFrom, if_neg (fun hand => hc hand.1), ih hrest]

/-- A message without a brace stays as it is. -/
theorem fill_of_no_brace {valueOf? : String → Option String} {template : String}
    (h : '\x7b' ∉ template.toList) : fill valueOf? template = template := by
  rw [fill, fillFrom_of_no_brace h, String.ofList_toList]

end Wording

namespace Constraint

/-- The message before its parameters are filled in. -/
def template (c : Constraint) : String :=
  c.message.getD c.rule.standardMessage

/-- The message of a violation. -/
def wording (c : Constraint) : String :=
  Wording.fill c.rule.parameter? c.template

end Constraint

end FieldGuard
