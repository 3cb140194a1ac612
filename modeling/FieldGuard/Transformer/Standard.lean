import FieldGuard.Annotation.Json
import FieldGuard.Registry.Catalog
import FieldGuard.Strategy.Standard
import FieldGuard.Text.Replace
import FieldGuard.Transformer.Basic

/-!
# `FieldGuard.Transformer.Standard`: the metadata of the library's own annotations

Limits become bounds unless they mean that there is none. A limit that no empty
value can meet makes the component weakly required. A constraint of the constraint
engine is transformed together with the constraints it is composed with.

* `addRules_append`: the metadata of a sequence of constraints is merged in order;
* `ofConstraint_eq`: the metadata of a constraint is that of its parts.
-/

set_option autoImplicit false

namespace FieldGuard

namespace Metadata

/-- Metadata of the given values. -/
def of (values : List (String × Json)) : Metadata :=
  Dict.ofList values

/-- A value that is there only under a condition. -/
def only (condition : Bool) (name : String) (value : Json) : List (String × Json) :=
  if condition then [(name, value)] else []

/-- Metadata of limits on a length. -/
def ofLength (least most : UInt64) : Metadata :=
  of ((minLength, .ofUInt64 least) :: (only (most != unbounded) maxLength (.ofUInt64 most)
    ++ only (least != 0) weakRequired (.bool true)))

/-- Metadata of limits on a whole number. -/
def ofWholeRange (range : WholeRange) : Metadata :=
  of (only (range.minimum != Int64.minValue) rangeMin (.ofInt64 range.minimum)
    ++ only (range.maximum != Int64.maxValue) rangeMax (.ofInt64 range.maximum)
    ++ only (decide (0 < range.minimum)) weakRequired (.bool true))

/-- Metadata of limits on a number. -/
def ofDecimalRange (range : DecimalRange) : Metadata :=
  of (only (!Number.sameNumber range.minimum Number.least) rangeMin (.ofFloat range.minimum)
    ++ only (!Number.sameNumber range.maximum Number.largest) rangeMax (.ofFloat range.maximum))

/-- Whether the name of a validator speaks of mail addresses. -/
def namesEmail (validator : String) : Bool :=
  Text.occursIn "email".toList ((Text.simpleName validator).toList.map Char.toLower)

/-- Metadata of names of validators that the host runs. -/
def ofHostValidators (names : List String) : Metadata :=
  of ((custom, .strings names) :: only (names.any namesEmail) email (.bool true))

/-- Metadata of a rule of the constraint engine. -/
def ofRule : Rule → Metadata
  | .notNull => of [(weakRequired, .bool true)]
  | .size least most => ofLength least most
  | .min value => of [(rangeMin, .ofInt64 value)]
  | .max value => of [(rangeMax, .ofInt64 value)]
  | .pattern regexp => of [(pattern, .strings [regexp])]
  | .email => of [(email, .bool true)]
  | .equal _ => of []

mutual

/-- Merges in the metadata of a constraint, then that of those it is composed with. -/
def addConstraint (metadata : Metadata) : Constraint → Metadata
  | ⟨rule, _, _, composing⟩ => addConstraints (merge metadata (ofRule rule)) composing

/-- Merges in the metadata of constraints, one after the other. -/
def addConstraints (metadata : Metadata) : List Constraint → Metadata
  | [] => metadata
  | c :: rest => addConstraints (addConstraint metadata c) rest

end

/-- Metadata of a constraint with everything it is composed with. -/
def ofConstraint (c : Constraint) : Metadata :=
  addConstraint ∅ c

/-- The metadata of constraints by themselves, merged in order. -/
def addRules (metadata : Metadata) (cs : List Constraint) : Metadata :=
  cs.foldl (fun metadata c => merge metadata (ofRule c.rule)) metadata

theorem addRules_append (metadata : Metadata) (cs ds : List Constraint) :
    addRules metadata (cs ++ ds) = addRules (addRules metadata cs) ds :=
  List.foldl_append

mutual

theorem addConstraint_eq (metadata : Metadata) (c : Constraint) :
    addConstraint metadata c = addRules metadata c.parts := by
  cases c with
  | mk rule groups message composing =>
    rw [addConstraint, Constraint.parts, addConstraints_eq]
    rfl

theorem addConstraints_eq (metadata : Metadata) (cs : List Constraint) :
    addConstraints metadata cs = addRules metadata (Constraint.partsOfAll cs) := by
  cases cs with
  | nil => rfl
  | cons c rest =>
    rw [addConstraints, Constraint.partsOfAll, addRules_append, addConstraint_eq, addConstraints_eq]

end

/-- The metadata of a constraint is that of its parts, merged in order. -/
theorem ofConstraint_eq (c : Constraint) : ofConstraint c = addRules ∅ c.parts :=
  addConstraint_eq ∅ c

end Metadata

namespace Transformer

/-! ### Names -/

/-- Name of the transformer for required values. -/
def requiredName : String := "RequiredMetaDataTransformer"

/-- Name of the transformer for lengths. -/
def lengthName : String := "LengthMetaDataTransformer"

/-- Name of the transformer for ranges of whole numbers. -/
def wholeRangeName : String := "LongRangeMetaDataTransformer"

/-- Name of the transformer for ranges of numbers. -/
def decimalRangeName : String := "DoubleRangeMetaDataTransformer"

/-- Name of the transformer for patterns. -/
def patternName : String := "PatternMetaDataTransformer"

/-- Name of the transformer for validators of the host. -/
def hostValidatorsName : String := "ValidatorMetaDataTransformer"

/-- Name of the transformer that borrows from other properties. -/
def joinName : String := "JoinMetaDataTransformer"

/-- Name of the transformer for constraints of the constraint engine. -/
def constraintName : String := "BeanValidationMetaDataTransformer"

/-- Name of the standard transformer for a strategy name. -/
def nameFor? (strategyName : String) : Option String :=
  Keyed.find? strategyName
    [(Strategy.requiredName, requiredName), (Strategy.lengthName, lengthName),
      (Strategy.wholeRangeName, wholeRangeName), (Strategy.decimalRangeName, decimalRangeName),
      (Strategy.patternName, patternName), (Strategy.hostValidatorsName, hostValidatorsName),
      (Strategy.joinName, joinName), (Strategy.constraintName, constraintName)]

/-- The standard transformers. The one for required values takes any entry. -/
def standard : List Transformer :=
  [ofEntry requiredName (fun _ => .ok (.of [(Metadata.required, .bool true)])),
    ofEntry lengthName (fun e => e.length.map fun l => .ofLength l.minimum l.maximum),
    ofEntry wholeRangeName (fun e => e.wholeRange.map .ofWholeRange),
    ofEntry decimalRangeName (fun e => e.decimalRange.map .ofDecimalRange),
    ofEntry patternName (fun e => e.pattern.map fun p => .of [(Metadata.pattern, .strings p.value)]),
    ofEntry hostValidatorsName (fun e => e.hostValidators.map .ofHostValidators),
    ⟨joinName, .join⟩,
    ofEntry constraintName (fun e => e.constraint.map .ofConstraint)]

/-- The catalog of the standard transformers. -/
def catalog : Catalog Transformer :=
  .ofList (standard.map fun t => (t.name, t))

end Transformer

end FieldGuard
