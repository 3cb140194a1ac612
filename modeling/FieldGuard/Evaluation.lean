import FieldGuard.Binding.Basic
import FieldGuard.Number.Reading
import FieldGuard.PropertyInfo

/-!
# `FieldGuard.Evaluation`: values of expressions

An expression is evaluated in a scope of named values. It is a literal, the
negation of an expression (`!` or `not `), or a root name followed by steps. The
name of a dynamic step is the value of another expression. Navigation stops at
the first null.

Evaluation recurses only into texts that are strictly shorter: `evaluateWith` is
one round of it, with the nested evaluation as a parameter.

* `evaluateWith_congr`: a round looks only at nested texts that are strictly shorter;
* `evaluate_eq`: so evaluation satisfies its own recursive equation, for every text.
-/

set_option autoImplicit false

namespace FieldGuard

open Text

/-- The values that expressions can name. -/
abbrev Scope := Dict Value

namespace Evaluation

/-- What is negated, if the text is a negation. -/
def operand? : List Char → Option (List Char)
  | '!' :: rest => some rest
  | 'n' :: 'o' :: 't' :: ' ' :: rest => some rest
  | _ => none

/-- Whether a decimal literal may begin like this. -/
def beginsNumber (cs : List Char) : Bool :=
  match cs.head? with
  | some c => c == '-' || Number.isDigit c
  | none => false

/-- The value that the text denotes by itself. -/
def literal? (cs : List Char) : Option Value :=
  match String.ofList cs with
  | "true" => some (.bool true)
  | "false" => some (.bool false)
  | "null" => some .null
  | text =>
    if Binding.isQuoted cs then some (.text (String.ofList cs.tail.dropLast))
    else
      match Number.readInt64? text with
      | some n => some (.integer n)
      | none => if beginsNumber cs then (Number.readFloat? text).map .decimal else none

/-- The name that a step stands for. -/
def nameOf (nested : List Char → Except Fault Value) : Step → Except Fault String
  | .property name => .ok name
  | .key name => .ok name
  | .dynamic body =>
    match nested body.toList with
    | .error fault => .error fault
    | .ok (.text name) => .ok name
    | .ok (.integer n) => .ok (toString n.toInt)
    | .ok other =>
      .error (.invalidExpression ("key '" ++ body ++ "' resolved to " ++ other.kind ++ " value"))

/-- The names of all steps, or the first fault. -/
def namesOf (nested : List Char → Except Fault Value) : List Step → Except Fault (List String)
  | [] => .ok []
  | step :: rest => do
    let name ← nameOf nested step
    let names ← namesOf nested rest
    .ok (name :: names)

/-- Reads one property after the other, from left to right. -/
def walk (nested : List Char → Except Fault Value) : Value → List Step → Except Fault Value
  | current, [] => .ok current
  | current, step :: rest => do
    let name ← nameOf nested step
    match current with
    | .null => .ok .null
    | .object bean => walk nested (bean.valueOf name) rest
    | other => .error (.invalidExpression ("cannot read '" ++ name ++ "' of " ++ other.kind ++ " value"))

/-- The value that a path leads to. The root is a name of the scope, as it is written. -/
def follow (nested : List Char → Except Fault Value) (scope : Scope) : List Step → Except Fault Value
  | [] => .error (.invalidExpression "")
  | root :: rest =>
    match scope.get? root.name with
    | none => .error (.unresolvableBinding root.name)
    | some value => walk nested value rest

/-- The negation of a truth value. -/
def negate (body : List Char) : Value → Except Fault Value
  | .bool b => .ok (.bool !b)
  | other =>
    .error (.invalidExpression
      ("cannot negate " ++ other.kind ++ " value in '" ++ String.ofList body ++ "'"))

/-- One round of evaluation, given the values of nested texts. -/
def evaluateWith (nested : List Char → Except Fault Value) (scope : Scope) (text : List Char) :
    Except Fault Value :=
  let body := trim text
  match operand? body with
  | some operand => nested operand >>= negate body
  | none =>
    match literal? body with
    | some value => .ok value
    | none => follow nested scope (Binding.stepsOf body)

/-- The value of the inside of an expression. Nested texts are strictly shorter,
so the guard never fails (see `evaluate_eq`). -/
def evaluate (scope : Scope) (text : List Char) : Except Fault Value :=
  evaluateWith
    (fun nested =>
      if _h : nested.length < text.length then evaluate scope nested
      else .error (.invalidExpression (String.ofList nested)))
    scope text
termination_by text.length

/-! ### Nested texts are shorter -/

theorem length_operand?_lt {body operand : List Char} (h : operand? body = some operand) :
    operand.length < body.length := by
  unfold operand? at h
  split at h
  · cases h; simp
  · cases h; simp only [List.length_cons]; omega
  · simp at h

theorem nameOf_congr {f g : List Char → Except Fault Value} {step : Step}
    (h : ∀ body, step = .dynamic body → f body.toList = g body.toList) :
    nameOf f step = nameOf g step := by
  cases step with
  | property name => rfl
  | key name => rfl
  | dynamic body => simp [nameOf, h body rfl]

theorem namesOf_congr {f g : List Char → Except Fault Value} {steps : List Step}
    (h : ∀ body, Step.dynamic body ∈ steps → f body.toList = g body.toList) :
    namesOf f steps = namesOf g steps := by
  induction steps with
  | nil => rfl
  | cons step rest ih =>
    have hhead : nameOf f step = nameOf g step :=
      nameOf_congr fun body hb => h body (hb ▸ List.mem_cons_self)
    have htail := ih fun body hb => h body (List.mem_cons_of_mem _ hb)
    simp [namesOf, hhead, htail]

theorem walk_congr {f g : List Char → Except Fault Value} {steps : List Step} (current : Value)
    (h : ∀ body, Step.dynamic body ∈ steps → f body.toList = g body.toList) :
    walk f current steps = walk g current steps := by
  induction steps generalizing current with
  | nil => rfl
  | cons step rest ih =>
    have hhead : nameOf f step = nameOf g step :=
      nameOf_congr fun body hb => h body (hb ▸ List.mem_cons_self)
    have htail := fun v => ih v fun body hb => h body (List.mem_cons_of_mem _ hb)
    simp [walk, hhead, htail]

theorem follow_congr {f g : List Char → Except Fault Value} {steps : List Step} (scope : Scope)
    (h : ∀ body, Step.dynamic body ∈ steps → f body.toList = g body.toList) :
    follow f scope steps = follow g scope steps := by
  cases steps with
  | nil => rfl
  | cons root rest =>
    have htail := fun v => walk_congr v fun body hb => h body (List.mem_cons_of_mem _ hb)
    simp [follow, htail]

/-- A round of evaluation looks only at nested texts that are strictly shorter. -/
theorem evaluateWith_congr {f g : List Char → Except Fault Value} {scope : Scope} {text : List Char}
    (h : ∀ nested : List Char, nested.length < text.length → f nested = g nested) :
    evaluateWith f scope text = evaluateWith g scope text := by
  have hle := length_trim_le text
  simp only [evaluateWith]
  split
  · next operand hop =>
    rw [h operand (Nat.lt_of_lt_of_le (length_operand?_lt hop) hle)]
  · split
    · rfl
    · exact follow_congr scope fun body hb =>
        h _ (Nat.lt_of_lt_of_le (Binding.length_dynamic_lt hb) hle)

/-- Evaluation satisfies its own recursive equation, for every text. -/
theorem evaluate_eq (scope : Scope) (text : List Char) :
    evaluate scope text = evaluateWith (evaluate scope) scope text := by
  rw [evaluate]
  exact evaluateWith_congr fun nested hn => by rw [dif_pos hn]

/-! ### Expressions -/

/-- The value of an expression. -/
def valueOf (scope : Scope) (text : String) : Except Fault Value :=
  if isTerm text then evaluate scope (Binding.inside ⟨text⟩)
  else .error (.invalidExpression text)

/-- The object and property that a binding is bound to. All names are resolved
before the object is looked for. -/
def detailsOf (scope : Scope) (b : Binding) : Except Fault Details := do
  if !b.isTerm then .error (.invalidExpression b.text)
  else
    let steps := b.steps
    if steps.length < 2 then
      .error (.unresolvableBinding (b.text ++ " does not point to a property"))
    else
      let names ← namesOf (evaluate scope) steps
      let key := ".".intercalate names
      let property := names.getLastD ""
      match ← follow (evaluate scope) scope steps.dropLast with
      | .object bean => .ok ⟨key, some bean, property⟩
      | .null => .ok ⟨key, none, property⟩
      | other => .error (.unresolvableBinding ("base of " ++ b.text ++ " is a " ++ other.kind ++ " value"))

end Evaluation

/-- What evaluates expressions, usually supplied by the host framework. An
expression is evaluated against the scope of a request, so of the request that is
at hand an evaluator is given the named values and no more: neither what was
submitted nor what happened so far can decide what an expression means. -/
structure Evaluator where
  isWellFormed : String → Bool
  valueOf : Scope → String → Except Fault Value
  isValid : Scope → String → Bool
  bean? : Scope → String → Option Value
  details : Scope → Binding → Except Fault Details

namespace Evaluator

/-- Evaluation in the scope of a request. An expression is valid when it is
well-formed and has a value. -/
def standard : Evaluator where
  isWellFormed := isTerm
  valueOf := Evaluation.valueOf
  isValid := fun scope text => isTerm text && (Evaluation.valueOf scope text).isOk
  bean? := Dict.get?
  details := Evaluation.detailsOf

end Evaluator

end FieldGuard
