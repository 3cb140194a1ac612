import FieldGuard.Dict
import FieldGuard.Json.Basic
import FieldGuard.Unique

/-!
# `FieldGuard.Metadata`: abstract configuration derived from constraints

Metadata is a dictionary of JSON values under names such as `max_length`.
Merging keeps the strictest of both sides: lower bounds take the larger value,
upper bounds the smaller one, flags are or'ed, lists are joined without
duplicates, and any other name takes the newer value. A bound that is no number
gives way to one that is.

* `get?_merge`: the value under a name after a merge, from the values before.
-/

set_option autoImplicit false

namespace FieldGuard

/-- Abstract configuration by name. -/
abbrev Metadata := Dict Json

namespace Metadata

/-! ### Names -/

/-- Least number of characters. -/
def minLength : String := "min_length"

/-- Greatest number of characters. -/
def maxLength : String := "max_length"

/-- Least number. -/
def rangeMin : String := "range_min"

/-- Greatest number. -/
def rangeMax : String := "range_max"

/-- The component becomes required. -/
def required : String := "required"

/-- Required unless the page author decides otherwise. -/
def weakRequired : String := "weak_required"

/-- Regular expressions. -/
def pattern : String := "pattern"

/-- Names of validators that the host runs. -/
def custom : String := "custom"

/-- The value is a mail address. -/
def email : String := "email"

/-- How the values under a name are merged. -/
inductive Policy where
  | larger
  | smaller
  | either
  | joined
  | newer
  deriving DecidableEq, Repr

/-- The policy of a name. -/
def policyOf (name : String) : Policy :=
  if name = minLength ∨ name = rangeMin then .larger
  else if name = maxLength ∨ name = rangeMax then .smaller
  else if name = required ∨ name = weakRequired ∨ name = email then .either
  else if name = pattern ∨ name = custom then .joined
  else .newer

/-! ### Merging -/

/-- Of two bounds, the one that `keeps` prefers; a number wins over anything else,
and of two that are no numbers the newer one counts. -/
def stricter (keeps : Int → Int → Bool) (old new : Json) : Json :=
  match old.asFloat?, new.asFloat? with
  | some a, some b => if keeps (Number.orderKey a) (Number.orderKey b) then old else new
  | some _, none => old
  | none, _ => new

/-- A value as a list of items: null has none, and what is no array is one item. -/
def itemsOf : Json → List Json
  | .array items => items
  | .null => []
  | item => [item]

/-- The items of both, those of the second without duplicates. -/
def joinItems (old new : Json) : Json :=
  .array ((itemsOf new).foldl addUnique (itemsOf old))

/-- Whether the value is `true`. -/
def isTrue (json : Json) : Bool :=
  json.asBool?.getD false

/-- The merger of two values under one policy. -/
def Policy.combine : Policy → Json → Json → Json
  | .larger, old, new => stricter (fun a b => decide (b ≤ a)) old new
  | .smaller, old, new => stricter (fun a b => decide (a ≤ b)) old new
  | .either, old, new => .bool (isTrue old || isTrue new)
  | .joined, old, new => joinItems old new
  | .newer, _, new => new

/-- Merges a value into what stands under a name. -/
def put (target : Metadata) (name : String) (value : Json) : Metadata :=
  target.insert name
    (match target.get? name with
      | none => value
      | some old => (policyOf name).combine old value)

/-- Merges all values of `incoming` into `target`. -/
def merge (target incoming : Metadata) : Metadata :=
  incoming.pairs.foldl (fun merged pair => put merged pair.1 pair.2) target

/-- The merger of what stands on both sides under a name. -/
def combine? (name : String) (old new : Option Json) : Option Json :=
  match old, new with
  | some old, some new => some ((policyOf name).combine old new)
  | some old, none => some old
  | none, new => new

theorem get?_put (target : Metadata) (name other : String) (value : Json) :
    (put target name value).get? other
      = if name = other then combine? name (target.get? name) (some value) else target.get? other := by
  rw [put, Dict.get?_insert]
  split
  · cases target.get? name <;> rfl
  · rfl

theorem get?_foldl_put {pairs : List (String × Json)} (hsorted : Keyed.Sorted pairs)
    (target : Metadata) (name : String) :
    (pairs.foldl (fun merged pair => put merged pair.1 pair.2) target).get? name
      = combine? name (target.get? name) (Keyed.find? name pairs) := by
  induction pairs generalizing target with
  | nil => cases h : target.get? name <;> simp [combine?, h]
  | cons pair rest ih =>
    obtain ⟨k, v⟩ := pair
    have hrest := List.pairwise_cons.1 hsorted
    rw [List.foldl_cons, ih hrest.2, get?_put, Keyed.find?_cons]
    by_cases hk : k = name
    · subst hk
      rw [if_pos rfl, if_pos rfl, Keyed.find?_eq_none_of_lt hrest.1]
      cases target.get? k <;> rfl
    · rw [if_neg hk, if_neg hk]

/-- The value under a name after a merge, from the values before. -/
theorem get?_merge (target incoming : Metadata) (name : String) :
    (merge target incoming).get? name = combine? name (target.get? name) (incoming.get? name) :=
  get?_foldl_put incoming.sorted target name

/-! ### Reading -/

/-- The texts under a name: those of an array, or a single one. -/
def texts (metadata : Metadata) (name : String) : List String :=
  match metadata.get? name with
  | some (.array items) => items.filterMap Json.asString?
  | some (.string item) => [item]
  | _ => []

/-- Whether the value under the name is `true`. -/
def flag (metadata : Metadata) (name : String) : Bool :=
  ((metadata.get? name).bind Json.asBool?).getD false

/-- The metadata as JSON. -/
def toJson (metadata : Metadata) : Json :=
  .object metadata.pairs

end Metadata

end FieldGuard
