import FieldGuard.Annotation.Json
import FieldGuard.PropertyInfo

/-!
# `FieldGuard.PropertyInfo.Json`: what is known about a property as JSON

The details of a property name the type of its owner rather than spell it out. Of the
facts only the details are written.
-/

set_option autoImplicit false

namespace FieldGuard

/-- Details as JSON. -/
def Details.toJson (d : Details) : Json :=
  .ofMembers [("key", .string d.key), ("property", .string d.property),
    ("base_type", Json.orNull .string d.baseType?)]

/-- An entry as JSON. -/
def Entry.toJson (e : Entry) : Json :=
  .ofMembers [("key", .string e.key), ("annotation", e.annotation.toJson),
    ("property", Json.orNull .string e.property),
    ("declared_in", Json.orNull .string e.declaredIn),
    ("source", .object (e.sources.pairs.map fun (name, source) => (name, .string source)))]

/-- The information on a property as JSON. -/
def PropertyInfo.toJson (info : PropertyInfo) : Json :=
  .ofMembers [("details", Json.orNull Details.toJson info.details?),
    ("entries", .array (info.entries.map Entry.toJson))]

end FieldGuard
