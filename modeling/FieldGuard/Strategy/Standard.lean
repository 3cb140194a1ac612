import FieldGuard.Registry.Catalog
import FieldGuard.Strategy.Basic

/-!
# `FieldGuard.Strategy.Standard`: the strategies of the library's own annotations

Every strategy first asks its entry for the annotation it is for, and fails if the
entry holds another one. Null is left to the strategy for required values; all
others accept it.

* `nameFor?`: the strategy of an annotation key, if it has one.
-/

set_option autoImplicit false

namespace FieldGuard

namespace Strategy

/-! ### Names -/

/-- Name of the strategy for required values. -/
def requiredName : String := "RequiredStrategy"

/-- Name of the strategy for lengths. -/
def lengthName : String := "LengthStrategy"

/-- Name of the strategy for ranges of whole numbers. -/
def wholeRangeName : String := "LongRangeStrategy"

/-- Name of the strategy for ranges of numbers. -/
def decimalRangeName : String := "DoubleRangeStrategy"

/-- Name of the strategy for patterns. -/
def patternName : String := "PatternStrategy"

/-- Name of the strategy for validators of the host. -/
def hostValidatorsName : String := "ValidatorStrategy"

/-- Name of the strategy that borrows from other properties. -/
def joinName : String := "JoinValidationStrategy"

/-- Name of the strategy that stands for one constraint of the constraint engine. -/
def constraintName : String := "BeanValidationStrategyAdapter"

open Annotation in
/-- Name of the standard strategy for an annotation key. -/
def nameFor? (annotationKey : String) : Option String :=
  Keyed.find? annotationKey
    [(Kind.required.key, requiredName), (Kind.length.key, lengthName),
      (Kind.wholeRange.key, wholeRangeName), (Kind.decimalRange.key, decimalRangeName),
      (Kind.pattern.key, patternName), (Kind.hostValidators.key, hostValidatorsName),
      (Kind.join.key, joinName)]

/-! ### Required values and lengths -/

/-- Refuses null and the empty text. -/
def checkRequired (entry : Entry) (value : Value) : Except Fault (List Complaint) := do
  let message ← entry.required
  .ok (if value.isNull || value.isEmptyText then
    [.of "required" (message.getD "Value is required") []] else [])

/-- The message about a wrong length. -/
def lengthMessage (limits : LengthLimits) : String :=
  let least := toString limits.minimum.toNat
  let most := toString limits.maximum.toNat
  if limits.maximum = unbounded then "Value must be at least " ++ least ++ " characters"
  else if limits.minimum = 0 then "Value must be at most " ++ most ++ " characters"
  else "Value must be between " ++ least ++ " and " ++ most ++ " characters"

/-- Whether a text keeps within limits. -/
def hasLength (limits : LengthLimits) (text : String) : Bool :=
  decide (limits.minimum.toNat ≤ text.length)
    && (limits.maximum == unbounded || decide (text.length ≤ limits.maximum.toNat))

/-- Refuses a value whose text is too short or too long. -/
def checkLength (entry : Entry) (value : Value) : Except Fault (List Complaint) := do
  let limits ← entry.length
  .ok (if value.isNull || hasLength limits value.display then []
    else
      [.of "length" (limits.message.getD (lengthMessage limits))
        (("min", .ofUInt64 limits.minimum)
          :: (if limits.maximum = unbounded then [] else [("max", .ofUInt64 limits.maximum)]))])

/-! ### Ranges -/

/-- The whole number that a value stands for: of a text, the one it writes; of a
number without a fraction, the nearest in range. -/
def wholeNumber? : Value → Option Int64
  | .integer n => some n
  | .decimal x => (Number.whole? x).map Number.saturate
  | .text s => Number.readTrimmedInt64? s
  | _ => none

/-- The message about a number that is out of range. -/
def rangeMessage (least most : String) : String :=
  "Value must be between " ++ least ++ " and " ++ most

/-- Refuses a value that is no whole number of the range. -/
def checkWholeRange (entry : Entry) (value : Value) : Except Fault (List Complaint) := do
  let range ← entry.wholeRange
  .ok (if value.isNull then []
    else
      match wholeNumber? value with
      | none => [.of "range" "Value is not a whole number" []]
      | some n =>
        if range.minimum ≤ n ∧ n ≤ range.maximum then []
        else
          [.of "range"
            (range.message.getD
              (rangeMessage (toString range.minimum.toInt) (toString range.maximum.toInt)))
            [("min", .ofInt64 range.minimum), ("max", .ofInt64 range.maximum)]])

/-- Refuses a value that is no number of the range. What is neither below nor above
the limits is in range. -/
def checkDecimalRange (entry : Entry) (value : Value) : Except Fault (List Complaint) := do
  let range ← entry.decimalRange
  .ok (if value.isNull then []
    else
      match value.asNumber? with
      | none => [.of "range" "Value is not a number" []]
      | some x =>
        if Number.below x range.minimum || Number.below range.maximum x then
          [.of "range"
            (range.message.getD
              (rangeMessage (Number.plainText range.minimum) (Number.plainText range.maximum))) []]
        else [])

/-! ### Patterns -/

/-- The first pattern that a text does not match; a pattern that does not compile
before that is a fault. -/
def firstMismatch (text : String) : List String → Except Fault (Option String)
  | [] => .ok none
  | source :: rest => do
    let pattern ← Pattern.compile source
    if pattern.accepts text then firstMismatch text rest else .ok (some source)

/-- Refuses a value whose text does not match all patterns. -/
def checkPattern (entry : Entry) (value : Value) : Except Fault (List Complaint) := do
  let patterns ← entry.pattern
  if value.isNull then .ok []
  else
    match ← firstMismatch value.display patterns.value with
    | none => .ok []
    | some source =>
      .ok [.of "pattern" (patterns.message.getD ("Value does not match " ++ source))
        [("pattern", .string source)]]

/-! ### The strategies -/

/-- The strategy that stands for one constraint of the constraint engine, whatever
its groups. -/
def ofConstraint (c : Constraint) : Strategy :=
  ⟨constraintName, .own fun env _ _ value =>
    .ok ((env.constraints.check c value).map fun message => .of "constraint" message [])⟩

/-- The entry that goes with the strategy of a constraint. -/
def constraintEntry (c : Constraint) (property : String) (binding : Option String) : Entry :=
  { Entry.ofAnnotation (.constraint c) with property := some property }.withBinding binding

/-- The standard strategies. Validators of the host run on the component itself. -/
def standard : List Strategy :=
  [ofEntry requiredName checkRequired, ofEntry lengthName checkLength,
    ofEntry wholeRangeName checkWholeRange, ofEntry decimalRangeName checkDecimalRange,
    ofEntry patternName checkPattern, ofEntry hostValidatorsName (fun _ _ => .ok []),
    ⟨joinName, .join⟩]

/-- The catalog of the standard strategies. -/
def catalog : Catalog Strategy :=
  .ofList (standard.map fun s => (s.name, s))

end Strategy

end FieldGuard
