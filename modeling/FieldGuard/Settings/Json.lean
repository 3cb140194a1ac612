import FieldGuard.Json.Decode
import FieldGuard.Settings.Basic

/-!
# `FieldGuard.Settings.Json`: settings as JSON
-/

set_option autoImplicit false

namespace FieldGuard.Settings

/-- Overrides as JSON. -/
def overridesToJson (overrides : Overrides) : Json :=
  .object (overrides.pairs.map fun (key, name) => (key, .string name))

/-- Decodes overrides. -/
def overridesOf? (json : Json) : Option Overrides :=
  (Json.pairsOf? Json.asString? json).map Dict.ofList

/-- The members of the settings. -/
def toMembers (s : Settings) : List (String × Json) :=
  [(keepsEmptyTextOption, .bool s.keepsEmptyText),
    (usesGroupSequencesOption, .bool s.usesGroupSequences),
    (reportsAllViolationsOption, .bool s.reportsAllViolations),
    (reviewerOption, Json.orNull .string s.reviewer),
    (extractorOption, Json.orNull .string s.extractor),
    (basePackageOption, Json.orNull .string s.basePackage),
    (strategiesOption, overridesToJson s.strategies),
    (transformersOption, overridesToJson s.transformers)]

/-- The settings as JSON. -/
def toJson (s : Settings) : Json :=
  .ofMembers s.toMembers

/-- Decodes settings; every option may be missing. -/
def ofJson? (json : Json) : Option Settings := do
  let members ← json.asObject?
  let keepsEmptyText ← Json.defaulted? keepsEmptyTextOption false Json.asBool? members
  let usesGroupSequences ← Json.defaulted? usesGroupSequencesOption false Json.asBool? members
  let reportsAllViolations ← Json.defaulted? reportsAllViolationsOption false Json.asBool? members
  let reviewer ← Json.optional? reviewerOption Json.asString? members
  let extractor ← Json.optional? extractorOption Json.asString? members
  let basePackage ← Json.optional? basePackageOption Json.asString? members
  let strategies ← Json.defaulted? strategiesOption ∅ overridesOf? members
  let transformers ← Json.defaulted? transformersOption ∅ overridesOf? members
  some { keepsEmptyText, usesGroupSequences, reportsAllViolations, reviewer, extractor,
         basePackage, strategies, transformers }

end FieldGuard.Settings
