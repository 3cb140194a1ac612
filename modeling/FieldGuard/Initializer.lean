import FieldGuard.Component.Basic
import FieldGuard.Metadata

/-!
# `FieldGuard.Initializer`: configuring components from metadata

Initializers attach validators to a component and set its flags. They touch only
what this library attached, so that rendering a component again with other
metadata leaves nothing behind, and with the same metadata changes nothing.
-/

set_option autoImplicit false

namespace FieldGuard

/-- What configures a component from metadata. It is given the component and nothing of the
request, which none of the standard initializers reads. -/
structure Initializer where
  name : String
  configure : Metadata → Component → Component

namespace Initializer

/-- The attribute that keeps the user from typing too much. -/
def maxlengthAttribute : String := "maxlength"

/-- The slot of length validators. -/
def lengthSlot : String := "length"

/-- The slot of range validators. -/
def rangeSlot : String := "range"

/-- The whole number under a name. -/
def bound? (metadata : Metadata) (name : String) : Option UInt64 :=
  (metadata.get? name).bind Json.asUInt64?

/-! ### Lengths -/

/-- The component without its attribute, if that has the value an attached length
validator wrote. -/
def dropMaxlength (c : Component) (written : Option HostValidator) : Component :=
  match written with
  | some (.length _ (some most)) =>
    if c.attributes.get? maxlengthAttribute == some (Json.int most.toNat) then
      { c with attributes := c.attributes.erase maxlengthAttribute }
    else c
  | _ => c

/-- The component without the length validator of an earlier render. -/
def dropLength (c : Component) : Component :=
  { dropMaxlength c (c.attached.get? lengthSlot) with attached := c.attached.erase lengthSlot }

/-- The component with the attribute for a greatest length, if there is one. -/
def setMaxlength (c : Component) : Option UInt64 → Component
  | some most =>
    { c with attributes := c.attributes.insert maxlengthAttribute (.int most.toNat) }
  | none => c

/-- Whether bounds on the length restrict anything. -/
def restrictsLength (least most : Option UInt64) : Bool :=
  most.isSome || least.any (· != 0)

/-- Attaches a length validator in place of the one of an earlier render. -/
def configureLength (metadata : Metadata) (c : Component) : Component :=
  let least := bound? metadata Metadata.minLength
  let most := bound? metadata Metadata.maxLength
  let c := dropLength c
  if restrictsLength least most then setMaxlength (c.attach (.length least most)) most else c

/-! ### Ranges -/

/-- The validator of bounds on a number: for whole numbers if all bounds are some. -/
def rangeValidator (least most : Option Json) : HostValidator :=
  let isWhole := fun (bound : Option Json) => bound.all fun json => json.asInt64?.isSome
  if isWhole least && isWhole most then
    .wholeRange (least.bind Json.asInt64?) (most.bind Json.asInt64?)
  else .decimalRange (least.bind Json.asFloat?) (most.bind Json.asFloat?)

/-- Attaches a range validator in place of the one of an earlier render. -/
def configureRange (metadata : Metadata) (c : Component) : Component :=
  let least := metadata.get? Metadata.rangeMin
  let most := metadata.get? Metadata.rangeMax
  if least.isNone && most.isNone then { c with attached := c.attached.erase rangeSlot }
  else c.attach (rangeValidator least most)

/-! ### Flags, patterns and named validators -/

/-- Makes the component required, strongly or weakly. -/
def configureRequired (metadata : Metadata) (c : Component) : Component :=
  if metadata.flag Metadata.required then c.setRequired true
  else if metadata.flag Metadata.weakRequired then c.markWeaklyRequired
  else c

/-- Whether a validator is no pattern, or one of those given. -/
def keepsPattern (patterns : List String) : HostValidator → Bool
  | .regex pattern => patterns.contains pattern
  | _ => true

/-- Attaches a validator for each pattern, and drops those of other patterns. -/
def configurePattern (metadata : Metadata) (c : Component) : Component :=
  let patterns := metadata.texts Metadata.pattern
  let c := { c with attached := c.attached.filter fun _ v => keepsPattern patterns v }
  patterns.foldl (fun c pattern => c.attach (.regex pattern)) c

/-- Whether a validator is neither named nor for mail addresses, or one of those asked for. -/
def keepsCustom (ids : List String) (email : Bool) : HostValidator → Bool
  | .custom id => ids.contains id
  | .email => email
  | _ => true

/-- Attaches the named validators and the one for mail addresses, and drops others. -/
def configureCustom (metadata : Metadata) (c : Component) : Component :=
  let ids := metadata.texts Metadata.custom
  let email := metadata.flag Metadata.email
  let c := { c with attached := c.attached.filter fun _ v => keepsCustom ids email v }
  let c := ids.foldl (fun c id => c.attach (.custom id)) c
  if email then c.attach .email else c

/-- The standard initializers in the order in which they run. -/
def standard : List Initializer :=
  [⟨"required", configureRequired⟩, ⟨"length", configureLength⟩, ⟨"range", configureRange⟩,
    ⟨"pattern", configurePattern⟩, ⟨"custom", configureCustom⟩]

/-- Runs initializers one after the other. -/
def configureAll (initializers : List Initializer) (metadata : Metadata) (c : Component) :
    Component :=
  initializers.foldl (fun c i => i.configure metadata c) c

end Initializer

end FieldGuard
