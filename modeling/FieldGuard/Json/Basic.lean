import FieldGuard.Keyed
import FieldGuard.Number.Binary64

/-!
# `FieldGuard.Json.Basic`: JSON values

Whole numbers and floating point numbers are kept apart, so `1` and `1.0` are
different values. The members of an object stand in increasing order of their
names. `same` is equality of values: floating point numbers are compared as
numbers, everything else by structure.
-/

set_option autoImplicit false

namespace FieldGuard

/-- A JSON value. -/
inductive Json where
  | null
  | bool (b : Bool)
  | int (n : Int)
  | float (x : Float)
  | string (s : String)
  | array (items : List Json)
  | object (members : List (String × Json))
  deriving Inhabited

namespace Json

mutual

/-- Equality of values. -/
def same : Json → Json → Bool
  | .null, .null => true
  | .bool a, .bool b => a == b
  | .int m, .int n => m == n
  | .float x, .float y => Number.sameNumber x y
  | .string s, .string t => s == t
  | .array xs, .array ys => sameItems xs ys
  | .object xs, .object ys => sameMembers xs ys
  | _, _ => false

/-- Equality of lists of values, item by item. -/
def sameItems : List Json → List Json → Bool
  | [], [] => true
  | x :: xs, y :: ys => same x y && sameItems xs ys
  | _, _ => false

/-- Equality of objects, member by member. -/
def sameMembers : List (String × Json) → List (String × Json) → Bool
  | [], [] => true
  | (k, x) :: xs, (l, y) :: ys => k == l && same x y && sameMembers xs ys
  | _, _ => false

end

instance : BEq Json := ⟨same⟩

theorem some_int_beq_self (n : Int) : (some (int n) == some (int n)) = true := by
  show same (.int n) (.int n) = true
  simp [same]

/-- An object with the given members; of two with one name the later counts. -/
def ofMembers (members : List (String × Json)) : Json :=
  .object (Keyed.ofList members)

/-- A value, or `null` for none. -/
def orNull {α : Type} (write : α → Json) : Option α → Json
  | some a => write a
  | none => .null

/-- A floating point number; infinities and NaN have no number in JSON. -/
def ofFloat (x : Float) : Json :=
  if Number.isFinite x then .float x else .null

/-- An array of texts. -/
def strings (items : List String) : Json :=
  .array (items.map .string)

/-! ### Reading a value as one of another type -/

/-- The truth value that this is. -/
def asBool? : Json → Option Bool
  | .bool b => some b
  | _ => none

/-- The text that this is. -/
def asString? : Json → Option String
  | .string s => some s
  | _ => none

/-- The whole number in the 64-bit unsigned range that this is. -/
def asUInt64? : Json → Option UInt64
  | .int n => Number.uint64? n
  | _ => none

/-- The whole number in the 64-bit signed range that this is. -/
def asInt64? : Json → Option Int64
  | .int n => Number.int64? n
  | _ => none

/-- The number that this is, rounded to a floating point number. -/
def asFloat? : Json → Option Float
  | .int n => some (Float.ofInt n)
  | .float x => some x
  | _ => none

/-- The members of an object. -/
def asObject? : Json → Option (List (String × Json))
  | .object members => some members
  | _ => none

/-- The items of an array. -/
def asArray? : Json → Option (List Json)
  | .array items => some items
  | _ => none

end Json

end FieldGuard
