import FieldGuard.Dict
import FieldGuard.Json.Basic
import FieldGuard.Number.Reading
import FieldGuard.Value.Basic

/-!
# `FieldGuard.Component.Basic`: input components

A component is bound to a property, converts the submitted text, and carries the
validators that the host runs: those of the page author and those attached by
this library. An attached validator has a slot and replaces what was attached in
the same slot. The author's `required` flag always wins over the weak flag
derived from constraints.
-/

set_option autoImplicit false

namespace FieldGuard

/-- A validator that the host runs on a component. -/
inductive HostValidator where
  | length (minimum maximum : Option UInt64)
  | wholeRange (minimum maximum : Option Int64)
  | decimalRange (minimum maximum : Option Float)
  | regex (pattern : String)
  | email
  | custom (id : String)
  deriving Inhabited, DecidableEq

/-- The slot that the validator occupies when it is attached. -/
def HostValidator.slot : HostValidator → String
  | .length _ _ => "length"
  | .wholeRange _ _ => "range"
  | .decimalRange _ _ => "range"
  | .regex pattern => "regex:" ++ pattern
  | .email => "email"
  | .custom id => "custom:" ++ id

/-- Why a submitted text has no value. -/
inductive ConversionFault where
  | notWhole (submitted : String)
  | notNumber (submitted : String)
  deriving DecidableEq, Repr

/-- The text that describes the fault. -/
def ConversionFault.message : ConversionFault → String
  | .notWhole submitted => "'" ++ submitted ++ "' is not a whole number"
  | .notNumber submitted => "'" ++ submitted ++ "' is not a number"

/-- How the submitted text of a component becomes a value. -/
structure Converter where
  name : String
  convert : String → Except ConversionFault Value

namespace Converter

/-- The text itself. -/
def text : Converter where
  name := "text"
  convert submitted := .ok (.text submitted)

/-- A converter to numbers: a blank text is null. -/
def toNumber (name : String) (read? : String → Option Value) (fault : String → ConversionFault) :
    Converter where
  name := name
  convert submitted :=
    if Text.isAllBlank submitted then .ok .null
    else
      match read? submitted with
      | some value => .ok value
      | none => .error (fault submitted)

/-- The whole number that a text writes. -/
def integer : Converter :=
  toNumber "integer" (fun submitted => (Number.readTrimmedInt64? submitted).map .integer) .notWhole

/-- The number that a text writes. Infinities and NaN are no numbers. -/
def decimal : Converter :=
  toNumber "decimal"
    (fun submitted => ((Number.readTrimmedFloat? submitted).filter Number.isFinite).map .decimal)
    .notNumber

/-- The standard converters. -/
def standard : List Converter :=
  [text, integer, decimal]

/-- The standard converter of a name. -/
def ofName? (name : String) : Option Converter :=
  standard.find? fun c => c.name == name

end Converter

/-- Who a component is, apart from its state. -/
structure Identity where
  clientId : String
  componentType : String
  label : Option String
  deriving DecidableEq, Repr, Inhabited

/-- The label, or else the client id. -/
def Identity.displayName (i : Identity) : String :=
  i.label.getD i.clientId

/-- An input component. -/
structure Component where
  clientId : String
  componentType : String := "HtmlInputText"
  valueBinding : Option String := none
  editable : Bool := true
  label : Option String := none
  /-- Set by the page author or by a strong constraint. -/
  required : Option Bool := none
  /-- Derived from weak constraints. -/
  weaklyRequired : Bool := false
  /-- Validators of the page author. -/
  validators : List HostValidator := []
  /-- Validators attached by this library, by slot. -/
  attached : Dict HostValidator := ∅
  attributes : Dict Json := ∅
  /-- An application may bring converters of its own. -/
  converter : Option Converter := none
  deriving Inhabited

namespace Component

/-- Whether a value is required: as the explicit flag says, or else as the weak one does. -/
def isRequired (c : Component) : Bool :=
  c.required.getD c.weaklyRequired

/-- Sets the explicit flag. -/
def setRequired (c : Component) (required : Bool) : Component :=
  { c with required := some required }

/-- Sets the weak flag, unless there is an explicit one. -/
def markWeaklyRequired (c : Component) : Component :=
  if c.required.isNone then { c with weaklyRequired := true } else c

/-- Attaches a validator in its slot. -/
def attach (c : Component) (v : HostValidator) : Component :=
  { c with attached := c.attached.insert v.slot v }

/-- The author's validators, then the attached ones in the order of their slots. -/
def allValidators (c : Component) : List HostValidator :=
  c.validators ++ c.attached.values

/-- Who the component is. -/
def identity (c : Component) : Identity :=
  ⟨c.clientId, c.componentType, c.label⟩

/-- The value of a submitted text; without a converter the text itself. -/
def convert (c : Component) (submitted : String) : Except ConversionFault Value :=
  match c.converter with
  | some converter => converter.convert submitted
  | none => .ok (.text submitted)

end Component

end FieldGuard
