import FieldGuard.Annotation.Basic
import FieldGuard.Dict
import FieldGuard.Fault
import FieldGuard.Value.Basic

/-!
# `FieldGuard.PropertyInfo`: what is known about one property

The details of a bound property say which object it belongs to. Its entries are
the annotations found for it, in order of discovery. Beside them stands a table
of facts, which the pipeline and its hooks fill in.
-/

set_option autoImplicit false

namespace FieldGuard

/-- Which property of which object a component is bound to. -/
structure Details where
  /-- The resolved names of all steps with dots between them. -/
  key : String
  base : Option Bean
  property : String
  deriving Inhabited

/-- Name of the type of the object, if there is one. -/
def Details.baseType? (d : Details) : Option String :=
  d.base.map (·.typeName)

/-- Key of the binding among the sources of an entry. -/
def bindingSource : String := "value_binding_expression"

/-- One annotation found for a property. -/
structure Entry where
  /-- Full name of the annotation type. -/
  key : String
  annotation : Annotation
  property : Option String := none
  declaredIn : Option String := none
  sources : Dict String := ∅
  deriving Inhabited

namespace Entry

/-- An entry with nothing but the annotation. -/
def ofAnnotation (a : Annotation) : Entry :=
  { key := a.key, annotation := a }

/-- The entry with a binding as its source, if there is one. -/
def withBinding (e : Entry) (binding : Option String) : Entry :=
  match binding with
  | some text => { e with sources := e.sources.insert bindingSource text }
  | none => e

/-- The entry with another annotation of the same type. -/
def withAnnotation (e : Entry) (a : Annotation) : Entry :=
  { e with annotation := a }

/-- The binding that the entry was found for. -/
def binding? (e : Entry) : Option String :=
  e.sources.get? bindingSource

/-- The fault of asking the entry for an annotation of another kind. -/
def unexpected (e : Entry) (expected : Annotation.Kind) : Fault :=
  .unexpectedKind expected.key e.key

/-- The annotation, if it is of the expected kind. -/
def expect (e : Entry) (expected : Annotation.Kind) : Except Fault Annotation :=
  if e.annotation.kind = expected then .ok e.annotation else .error (e.unexpected expected)

/-- The own message of a required annotation. -/
def required (e : Entry) : Except Fault (Option String) :=
  match e.annotation with
  | .required message => .ok message
  | _ => .error (e.unexpected .required)

/-- The limits of a length annotation. -/
def length (e : Entry) : Except Fault LengthLimits :=
  match e.annotation with
  | .length limits => .ok limits
  | _ => .error (e.unexpected .length)

/-- The limits of a range annotation for whole numbers. -/
def wholeRange (e : Entry) : Except Fault WholeRange :=
  match e.annotation with
  | .wholeRange range => .ok range
  | _ => .error (e.unexpected .wholeRange)

/-- The limits of a range annotation for numbers. -/
def decimalRange (e : Entry) : Except Fault DecimalRange :=
  match e.annotation with
  | .decimalRange range => .ok range
  | _ => .error (e.unexpected .decimalRange)

/-- The expressions of a pattern annotation. -/
def pattern (e : Entry) : Except Fault Patterns :=
  match e.annotation with
  | .pattern patterns => .ok patterns
  | _ => .error (e.unexpected .pattern)

/-- The names of an annotation that refers to validators of the host. -/
def hostValidators (e : Entry) : Except Fault (List String) :=
  match e.annotation with
  | .hostValidators names => .ok names
  | _ => .error (e.unexpected .hostValidators)

/-- The targets of a join as they are declared. -/
def join (e : Entry) : Except Fault (List String) :=
  match e.annotation with
  | .join targets => .ok targets
  | _ => .error (e.unexpected .join)

/-- The constraint of a constraint annotation. -/
def constraint (e : Entry) : Except Fault Constraint :=
  match e.annotation with
  | .constraint c => .ok c
  | _ => .error (e.unexpected .constraint)

end Entry

/-- A violated constraint. -/
structure Violation where
  message : String
  /-- The message before its parameters were filled in. -/
  template : String
  typeName : String
  /-- Name of the property; empty for a constraint on the object. -/
  path : String
  invalidValue : Value
  /-- Full name of the annotation type of the constraint. -/
  key : String
  deriving Inhabited

/-- A fact about a property. -/
inductive Fact where
  | details (details : Details)
  | violations (violations : List Violation)
  | text (text : String)

/-- The entries of a property, and the facts about it. -/
structure PropertyInfo where
  entries : List Entry := []
  facts : Dict Fact := ∅
  deriving Inhabited

namespace PropertyInfo

/-- Where the details of the property stand. -/
def detailsKey : String := "property_details"

/-- Where the violations of the last validation stand. -/
def violationsKey : String := "constraint_violations"

/-- The information with one more entry at the end. -/
def addEntry (info : PropertyInfo) (e : Entry) : PropertyInfo :=
  { info with entries := info.entries ++ [e] }

/-- The information with a fact put under a key. -/
def setFact (info : PropertyInfo) (key : String) (fact : Fact) : PropertyInfo :=
  { info with facts := info.facts.insert key fact }

/-- The details under a key; none if there is nothing or another kind of fact. -/
def detailsAt? (info : PropertyInfo) (key : String) : Option Details :=
  match info.facts.get? key with
  | some (.details d) => some d
  | _ => none

/-- The text under a key; none if there is nothing or another kind of fact. -/
def textAt? (info : PropertyInfo) (key : String) : Option String :=
  match info.facts.get? key with
  | some (.text s) => some s
  | _ => none

/-- The details of the property. -/
def details? (info : PropertyInfo) : Option Details :=
  info.detailsAt? detailsKey

/-- The violations of the last validation, if it found any. -/
def violations? (info : PropertyInfo) : Option (List Violation) :=
  match info.facts.get? violationsKey with
  | some (.violations vs) => some vs
  | _ => none

/-- What stands under a key, seen as one kind of fact, or the fault that it is not there. -/
def require {α : Type} (info : PropertyInfo) (key : String) (found : Option α) : Except Fault α :=
  match found with
  | some a => .ok a
  | none =>
    .error (.unexpectedKind key
      (if info.facts.contains key then "value of another type" else "nothing"))

/-- The information of a property whose entries are known. -/
def ofEntries (details : Details) (entries : List Entry) : PropertyInfo :=
  { entries, facts := (∅ : Dict Fact).insert detailsKey (.details details) }

end PropertyInfo

end FieldGuard
