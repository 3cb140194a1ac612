import FieldGuard.Dict
import FieldGuard.Fault
import FieldGuard.Text.Blank

/-!
# `FieldGuard.Settings.Basic`: the options of the validation layer

Every option defaults to the standard behaviour. Overrides replace the built-in
plug-in of an annotation or of a strategy by a plug-in of another name. An
override is looked up by its exact key first, then by the first key that differs
only in ASCII case.

Settings hold overrides by key and fix no order to walk through them: whoever looks
overrides up has them in an `Overrides.Order`. Settings themselves take the order of
the keys.

* `find?_of_exact`: an exact key wins whatever else is there.
-/

set_option autoImplicit false

namespace FieldGuard

/-- Names of plug-ins under the keys they override. -/
abbrev Overrides := Dict String

namespace Overrides

/-- Whether two texts are equal up to ASCII case. -/
def sameIgnoringCase (a b : String) : Bool :=
  a.toList.map Char.toLower == b.toList.map Char.toLower

/-- The name under a key in a list of overrides. -/
def find? (overrides : List (String × String)) (key : String) : Option String :=
  match Keyed.find? key overrides with
  | some name => some name
  | none => (overrides.find? fun pair => sameIgnoringCase pair.1 key).map (·.2)

/-- An exact key wins whatever else is there. -/
theorem find?_of_exact {overrides : List (String × String)} {key name : String}
    (h : Keyed.find? key overrides = some name) : find? overrides key = some name := by
  simp [find?, h]

/-- The overrides in any order. -/
structure Order (overrides : Overrides) where
  pairs : List (String × String)
  perm : pairs.Perm overrides.pairs

namespace Order

variable {overrides : Overrides}

/-- The order of the keys. -/
def byKey (overrides : Overrides) : Order overrides :=
  ⟨overrides.pairs, .refl _⟩

/-- The name that overrides a key. -/
def lookup? (o : Order overrides) (key : String) : Option String :=
  find? o.pairs key

end Order

end Overrides

/-- The options of the validation layer. -/
structure Settings where
  /-- An empty submitted text stays a text instead of counting as null. -/
  keepsEmptyText : Bool := false
  /-- Groups come from the declared sequence of the type instead of controllers. -/
  usesGroupSequences : Bool := false
  /-- Every violation of a field is reported, not only the first. -/
  reportsAllViolations : Bool := false
  /-- Name of the reviewer that is asked first. -/
  reviewer : Option String := none
  /-- Name of the extractor in place of the standard one. -/
  extractor : Option String := none
  /-- Package that is searched for plug-ins named by convention. -/
  basePackage : Option String := none
  /-- Strategies by annotation key. -/
  strategies : Overrides := ∅
  /-- Transformers by strategy name. -/
  transformers : Overrides := ∅
  deriving DecidableEq, Inhabited

namespace Settings

/-! ### Names of the options -/

/-- Option of `keepsEmptyText`. -/
def keepsEmptyTextOption : String := "deactivate_empty_string_interpretation"

/-- Option of `usesGroupSequences`. -/
def usesGroupSequencesOption : String := "deactivate_additional_group_validation_annotations"

/-- Option of `reportsAllViolations`. -/
def reportsAllViolationsOption : String := "activate_multiple_violation_messages_per_field"

/-- Option of `reviewer`. -/
def reviewerOption : String := "custom_validation_exception_interceptor"

/-- Option of `extractor`. -/
def extractorOption : String := "custom_component_meta_data_extractor"

/-- Option of `basePackage`. -/
def basePackageOption : String := "custom_base_package"

/-- Option of `strategies`. -/
def strategiesOption : String := "validation_strategies"

/-- Option of `transformers`. -/
def transformersOption : String := "meta_data_transformers"

/-! ### Validity -/

/-- The options that hold a name, in the order in which they are checked. -/
def names (s : Settings) : List (String × Option String) :=
  [(reviewerOption, s.reviewer), (extractorOption, s.extractor), (basePackageOption, s.basePackage)]

/-- What is wrong with the settings: the first name that is blank, or else the first
override with a blank side. -/
def complaint? (s : Settings) : Option String :=
  match s.names.find? fun option => option.2.any Text.isAllBlank with
  | some (option, _) => some (option ++ " cannot be blank")
  | none =>
    ((s.strategies.pairs ++ s.transformers.pairs).find? fun pair =>
        Text.isAllBlank pair.1 || Text.isAllBlank pair.2).map
      fun (key, name) => "Override mapping '" ++ key ++ "' -> '" ++ name ++ "' must name both sides"

/-- Refuses settings with a blank name. -/
def validate (s : Settings) : Except Fault Unit :=
  match s.complaint? with
  | some reason => .error (.configuration reason)
  | none => .ok ()

/-- Name of the strategy configured for an annotation key, in the order of the keys. -/
def strategyFor? (s : Settings) (annotationKey : String) : Option String :=
  (Overrides.Order.byKey s.strategies).lookup? annotationKey

/-- Name of the transformer configured for a strategy name, in the order of the keys. -/
def transformerFor? (s : Settings) (strategyName : String) : Option String :=
  (Overrides.Order.byKey s.transformers).lookup? strategyName

end Settings

end FieldGuard
