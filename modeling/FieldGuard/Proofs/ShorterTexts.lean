import FieldGuard.Evaluation
import FieldGuard.Proofs.LastStep
import Mathlib.Logic.Function.Iterate
import Mathlib.Logic.Relation

/-!
# `FieldGuard.Proofs.ShorterTexts`: evaluation ends for every text

Parsing and evaluation call each other through texts. The base of a binding is written between
delimiters again before it is parsed, and a text is written between delimiters before its steps are
read, so that what is parsed next may be as long as what was parsed before. What shrinks is the
inside, and it does so for every text, well-formed or not.

A recursion ends when nothing depends on the calls below some depth. So the recursions are written
out here once more as they go through wrapped texts, with a depth, and with arbitrary answers below
it. A depth above the length of the inside is enough: the answers are never asked for.

* `Binding.stepsWithin_eq`, `Binding.resolveWithin_eq`: parsing, and the walk along the bases;
* `Evaluation.Asks`: which texts an evaluation goes on to, and that they are shorter;
* `Evaluation.evaluateWithin_eq`, `Evaluation.detailsWithin_eq`: evaluation;
* `evaluation_ends`: all of this in one statement.
-/

set_option autoImplicit false

namespace FieldGuard

open Text

namespace Binding

/-! ### Parsing -/

/-- The base of the base and so on, until there is none. -/
theorem iterate_base? {b : Binding} {n : Nat} (h : b.inside.length < n) :
    (fun found : Option Binding => found.bind base?)^[n] (some b) = none := by
  induction n generalizing b with
  | zero => omega
  | succ n ih =>
    rw [Function.iterate_succ_apply]
    show (fun found : Option Binding => found.bind base?)^[n] b.base? = none
    cases hbase : b.base? with
    | none => exact Function.iterate_fixed rfl n
    | some base =>
      have hshorter := length_splitLast_lt (splitLast_of_base? hbase).1
      exact ih (by omega)

/-- Root and steps, those of the base first. Calls below depth `n` are answered by `below`. -/
def stepsWithin (below : Binding → List Step) : Nat → Binding → List Step
  | 0, b => below b
  | n + 1, b => (b.base?.map (stepsWithin below n)).getD [] ++ [b.lastStep]

theorem stepsWithin_eq (below : Binding → List Step) {n : Nat} {b : Binding}
    (h : b.inside.length < n) : stepsWithin below n b = b.steps := by
  induction n generalizing b with
  | zero => omega
  | succ n ih =>
    rw [stepsWithin, steps, stepsOf_eq]
    cases hbase : b.base? with
    | none =>
      rw [splitLast_of_base?_eq_none hbase]
      rfl
    | some base =>
      have hsplit := (splitLast_of_base? hbase).1
      have hshorter := length_splitLast_lt hsplit
      rw [hsplit, Option.map_some, Option.getD_some, ih (by omega)]
      rfl

/-- The first of a candidate, its base and so on that has a name. Steps beyond `n` are answered by
`below`. -/
def nearestWithin (below : Option Binding → Option Binding) (name : String) :
    Nat → Option Binding → Option Binding
  | 0, candidate => below candidate
  | _ + 1, none => none
  | n + 1, some candidate =>
    if candidate.property == name then some candidate
    else nearestWithin below name n candidate.base?

theorem nearestWithin_eq (below : Option Binding → Option Binding) (name : String) {n : Nat}
    {b : Binding} (h : b.inside.length < n) :
    nearestWithin below name n b.base? = b.bases.find? fun base => base.property == name := by
  induction n generalizing b with
  | zero => omega
  | succ n ih =>
    rw [bases_eq]
    cases hbase : b.base? with
    | none => rfl
    | some base =>
      have hshorter := length_splitLast_lt (splitLast_of_base? hbase).1
      rw [nearestWithin, ih (by omega), List.find?_cons]
      cases base.property == name with
      | false => rfl
      | true => rfl

/-- Resolves a path relative to a binding, given where the first name of the path is found. -/
def resolveFrom (nearest : String → Option Binding) (b : Binding) (path : String) : Binding :=
  let (first, rest) :=
    match Text.cutFirst? '.' path.toList with
    | some (first, rest) => (String.ofList first, some (String.ofList rest))
    | none => (path, none)
  match nearest first with
  | some anchor =>
    match rest with
    | some rest => anchor.addProperty rest
    | none => anchor
  | none => b.replaceProperty path

theorem resolvePath_eq_resolveFrom (b : Binding) (path : String) :
    b.resolvePath path
      = resolveFrom (fun name => b.bases.find? fun base => base.property == name) b path := rfl

/-- Resolves a path by a walk from base to base. -/
def resolveWithin (below : Option Binding → Option Binding) (n : Nat) (b : Binding) :
    String → Binding :=
  resolveFrom (fun name => nearestWithin below name n b.base?) b

theorem resolveWithin_eq (below : Option Binding → Option Binding) {n : Nat} {b : Binding}
    (h : b.inside.length < n) (path : String) :
    resolveWithin below n b path = b.resolvePath path := by
  have hnearest := funext fun name => nearestWithin_eq below name h
  rw [resolveWithin, resolvePath_eq_resolveFrom, hnearest]

end Binding

namespace Evaluation

/-! ### The texts that an evaluation goes on to -/

/-- To evaluate a text, another one may have to be evaluated: what the text negates, or the body of
a bracket among its steps. -/
inductive Asks (text : List Char) : List Char → Prop where
  | operand {operand : List Char} (h : operand? (trim text) = some operand) : Asks text operand
  | key {body : String} (hoperand : operand? (trim text) = none)
    (hliteral : literal? (trim text) = none)
    (h : Step.dynamic body ∈ (Binding.wrap (trim text)).steps) : Asks text body.toList

/-- The steps of a text between delimiters are those of the text. -/
theorem steps_wrap_trim (text : List Char) :
    (Binding.wrap (trim text)).steps = Binding.stepsOf (trim text) := by
  rw [Binding.steps, Binding.inside_wrap, trim_trim]

theorem Asks.length_lt {text nested : List Char} (h : Asks text nested) :
    nested.length < text.length := by
  have htrim := length_trim_le text
  cases h with
  | operand h =>
    have hoperand := length_operand?_lt h
    omega
  | key _ _ h =>
    rw [steps_wrap_trim] at h
    have hbody := Binding.length_dynamic_lt h
    omega

/-- At every depth the texts are shorter. -/
theorem Asks.length_lt_of_transGen {text nested : List Char}
    (h : Relation.TransGen Asks text nested) : nested.length < text.length := by
  induction h with
  | single hasks => exact hasks.length_lt
  | tail _ hasks ih => exact Nat.lt_trans hasks.length_lt ih

/-- A round of evaluation goes on to no other texts. -/
theorem evaluateWith_congr_of_asks {f g : List Char → Except Fault Value} {scope : Scope}
    {text : List Char} (h : ∀ nested, Asks text nested → f nested = g nested) :
    evaluateWith f scope text = evaluateWith g scope text := by
  simp only [evaluateWith]
  cases hoperand : operand? (trim text) with
  | some operand =>
    dsimp only
    rw [h operand (.operand hoperand)]
  | none =>
    cases hliteral : literal? (trim text) with
    | some value => rfl
    | none =>
      refine follow_congr scope fun body hbody => h _ (.key hoperand hliteral ?_)
      rw [steps_wrap_trim]
      exact hbody

/-! ### Evaluation -/

/-- One round of evaluation, given how steps are read and the values of nested texts. -/
def evaluateBy (nested : List Char → Except Fault Value) (parse : List Char → List Step)
    (scope : Scope) (text : List Char) : Except Fault Value :=
  let body := trim text
  match operand? body with
  | some operand => nested operand >>= negate body
  | none =>
    match literal? body with
    | some value => .ok value
    | none => follow nested scope (parse body)

theorem evaluateWith_eq_evaluateBy (nested : List Char → Except Fault Value) (scope : Scope)
    (text : List Char) :
    evaluateWith nested scope text = evaluateBy nested Binding.stepsOf scope text := rfl

/-- The object and property that a binding is bound to, given its steps and the values of nested
texts. -/
def detailsBy (nested : List Char → Except Fault Value) (steps : List Step) (scope : Scope)
    (b : Binding) : Except Fault Details := do
  if !b.isTerm then .error (.invalidExpression b.text)
  else if steps.length < 2 then
    .error (.unresolvableBinding (b.text ++ " does not point to a property"))
  else
    let names ← namesOf nested steps
    let key := ".".intercalate names
    let property := names.getLastD ""
    match ← follow nested scope steps.dropLast with
    | .object bean => .ok ⟨key, some bean, property⟩
    | .null => .ok ⟨key, none, property⟩
    | other =>
      .error (.unresolvableBinding ("base of " ++ b.text ++ " is a " ++ other.kind ++ " value"))

theorem detailsOf_eq_detailsBy (scope : Scope) (b : Binding) :
    detailsOf scope b = detailsBy (evaluate scope) b.steps scope b := rfl

/-- What answers in place of calls that are too deep. -/
structure Below where
  steps : Binding → List Step
  value : List Char → Except Fault Value

section

variable (below : Below) (scope : Scope)

/-- The value of the inside of an expression. It is written between delimiters to read its steps. -/
def evaluateWithin : Nat → List Char → Except Fault Value
  | 0, text => below.value text
  | n + 1, text =>
    evaluateBy (evaluateWithin n)
      (fun body => Binding.stepsWithin below.steps (n + 1) (Binding.wrap body)) scope text

/-- The value of an expression. -/
def valueWithin (n : Nat) (text : String) : Except Fault Value :=
  if isTerm text then evaluateWithin below scope n (Binding.inside ⟨text⟩)
  else .error (.invalidExpression text)

/-- The object and property that a binding is bound to. -/
def detailsWithin (n : Nat) (b : Binding) : Except Fault Details :=
  detailsBy (evaluateWithin below scope n) (Binding.stepsWithin below.steps n b) scope b

theorem evaluateWithin_eq {n : Nat} {text : List Char} (h : text.length < n) :
    evaluateWithin below scope n text = evaluate scope text := by
  induction n generalizing text with
  | zero => omega
  | succ n ih =>
    -- One level is one round, since parsing ends, too.
    have hsteps : Binding.stepsWithin below.steps (n + 1) (Binding.wrap (trim text))
        = Binding.stepsOf (trim text) := by
      have htrim := length_trim_le text
      rw [Binding.stepsWithin_eq, steps_wrap_trim]
      rw [Binding.inside_wrap, trim_trim]
      omega
    have hround : evaluateWithin below scope (n + 1) text
        = evaluateWith (evaluateWithin below scope n) scope text := by
      rw [evaluateWith_eq_evaluateBy, evaluateWithin]
      simp only [evaluateBy, hsteps]
    rw [hround, evaluate_eq]
    refine evaluateWith_congr fun nested hnested => ih ?_
    omega

theorem valueWithin_eq {n : Nat} {b : Binding} (h : b.inside.length < n) :
    valueWithin below scope n b.text = valueOf scope b.text := by
  rw [valueWithin, valueOf, evaluateWithin_eq below scope h]

theorem detailsWithin_eq {n : Nat} {b : Binding} (h : b.inside.length < n) :
    detailsWithin below scope n b = detailsOf scope b := by
  have hbody : ∀ body, Step.dynamic body ∈ b.steps →
      evaluateWithin below scope n body.toList = evaluate scope body.toList := by
    intro body hmem
    have hshorter := Binding.length_dynamic_lt hmem
    exact evaluateWithin_eq below scope (Nat.lt_trans hshorter h)
  have hnames := namesOf_congr hbody
  have hbase := follow_congr scope fun body hmem => hbody body (List.dropLast_subset _ hmem)
  rw [detailsWithin, detailsOf_eq_detailsBy, Binding.stepsWithin_eq below.steps h]
  simp only [detailsBy, hnames, hbase]

end

end Evaluation

/-! ### The statement -/

/-- Evaluation ends for every text, and so does parsing.

The base of a binding has a shorter inside, so that there is no base after as many steps as the
inside is long. With a depth above that length, reading the steps and walking along the bases yield
their result whatever is answered at that depth. Every text that an evaluation goes on to, at any
depth, is shorter than the text itself, a round of evaluation goes on to no other texts, and the
bodies of brackets among the steps of a binding are shorter than its inside. So evaluation, too,
yields its result at a depth above the length, whatever is answered there. This holds in every
scope. -/
theorem evaluation_ends :
    (∀ b base : Binding, b.base? = some base → base.inside.length < b.inside.length) ∧
    (∀ b : Binding,
      (fun found : Option Binding => found.bind Binding.base?)^[b.inside.length + 1] (some b)
        = none) ∧
    (∀ (b : Binding) (n : Nat), b.inside.length < n →
      (∀ below, Binding.stepsWithin below n b = b.steps) ∧
      ∀ below path, Binding.resolveWithin below n b path = b.resolvePath path) ∧
    (∀ text nested, Relation.TransGen Evaluation.Asks text nested →
      nested.length < text.length) ∧
    (∀ scope text answer,
      (∀ nested, Evaluation.Asks text nested → answer nested = Evaluation.evaluate scope nested) →
      Evaluation.evaluateWith answer scope text = Evaluation.evaluate scope text) ∧
    (∀ (b : Binding) (body : String), .dynamic body ∈ b.steps →
      body.toList.length < b.inside.length) ∧
    (∀ below scope (text : List Char) (n : Nat), text.length < n →
      Evaluation.evaluateWithin below scope n text = Evaluation.evaluate scope text) ∧
    ∀ below scope (b : Binding) (n : Nat), b.inside.length < n →
      Evaluation.valueWithin below scope n b.text = Evaluator.standard.valueOf scope b.text ∧
      Evaluation.detailsWithin below scope n b = Evaluator.standard.details scope b := by
  refine ⟨fun b base hbase => ?_, fun b => Binding.iterate_base? (Nat.lt_succ_self _),
    fun b n h => ⟨fun below => Binding.stepsWithin_eq below h,
      fun below => Binding.resolveWithin_eq below h⟩,
    fun text nested => Evaluation.Asks.length_lt_of_transGen, fun scope text answer h => ?_,
    fun b body => Binding.length_dynamic_lt,
    fun below scope text n => Evaluation.evaluateWithin_eq below scope, fun below scope b n h =>
      ⟨Evaluation.valueWithin_eq below scope h, Evaluation.detailsWithin_eq below scope h⟩⟩
  · exact Binding.length_splitLast_lt (Binding.splitLast_of_base? hbase).1
  · rw [Evaluation.evaluate_eq scope text]
    exact Evaluation.evaluateWith_congr_of_asks h

/-- A quote that is never closed, and a double negation in brackets. The base is longer than the
whole once it is written between delimiters, but its inside is shorter. -/
theorem evaluation_ends_unclosed_quote :
    let b : Binding := ⟨"'list[!!last].a"⟩
    b.base? = some ⟨"#\x7b'list[!!last]\x7d"⟩ ∧
    (∀ base, b.base? = some base → base.inside.length < b.inside.length) ∧
    Relation.TransGen Evaluation.Asks b.text.toList "last".toList ∧
    "last".toList.length < b.text.toList.length ∧
    ∀ (below : Evaluation.Below) scope path,
      Binding.stepsWithin below.steps 16 b = b.steps ∧
      Binding.resolveWithin id 16 b path = b.resolvePath path ∧
      Evaluation.evaluateWithin below scope 16 b.text.toList
        = Evaluation.evaluate scope b.text.toList ∧
      Evaluation.detailsWithin below scope 16 b = Evaluator.standard.details scope b := by
  intro b
  obtain ⟨hbase, -, hparse, hasks, -, -, hvalue, hdetails⟩ := evaluation_ends
  have hinside : b.inside.length < 16 := by decide +kernel
  have hkey : Evaluation.Asks b.text.toList "!!last".toList :=
    .key (by decide +kernel) (by decide +kernel) (by decide +kernel)
  have houter : Evaluation.Asks "!!last".toList "!last".toList := .operand (by decide +kernel)
  have hinner : Evaluation.Asks "!last".toList "last".toList := .operand (by decide +kernel)
  have hlast := ((Relation.TransGen.single hkey).tail houter).tail hinner
  refine ⟨by decide +kernel, hbase b, hlast, hasks _ _ hlast, fun below scope path => ?_⟩
  exact ⟨(hparse b 16 hinside).1 below.steps, (hparse b 16 hinside).2 id path,
    hvalue below scope _ 16 (by decide +kernel), (hdetails below scope b 16 hinside).2⟩

end FieldGuard
