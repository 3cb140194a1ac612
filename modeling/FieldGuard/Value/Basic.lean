import FieldGuard.Keyed
import FieldGuard.Number.Shortest

/-!
# `FieldGuard.Value.Basic`: the values of properties

A value is null, a truth value, a whole number, a floating point number, a text
or an object. An object knows which instance it is: `same` compares values by
content and looks through the instances, `Bean.identity` tells instances apart.
`number` gives every object of a value an instance number of its own.
-/

set_option autoImplicit false

namespace FieldGuard

/-- An object: which instance it is, the name of its type, and the values of its
properties in increasing order of their names. -/
structure Record (α : Type) where
  identity : Nat
  typeName : String
  properties : List (String × α)
  deriving Inhabited

/-- The value of a property. -/
inductive Value where
  | null
  | bool (b : Bool)
  | integer (n : Int64)
  | decimal (x : Float)
  | text (s : String)
  | object (bean : Record Value)
  deriving Inhabited

/-- An object whose properties hold values. -/
abbrev Bean := Record Value

namespace Value

mutual

/-- Equality by content; the instances of objects do not matter. -/
def same : Value → Value → Bool
  | .null, .null => true
  | .bool a, .bool b => a == b
  | .integer m, .integer n => m == n
  | .decimal x, .decimal y => Number.sameNumber x y
  | .text s, .text t => s == t
  | .object ⟨_, t, ps⟩, .object ⟨_, u, qs⟩ => t == u && sameProperties ps qs
  | _, _ => false

/-- Equality of properties, one by one. -/
def sameProperties : List (String × Value) → List (String × Value) → Bool
  | [], [] => true
  | (k, x) :: xs, (l, y) :: ys => k == l && same x y && sameProperties xs ys
  | _, _ => false

end

instance : BEq Value := ⟨same⟩

/-- Name of the kind of a value. -/
def kind : Value → String
  | .null => "null"
  | .bool _ => "bool"
  | .integer _ => "integer"
  | .decimal _ => "decimal"
  | .text _ => "text"
  | .object _ => "object"

/-- Whether this is null. -/
def isNull : Value → Bool
  | .null => true
  | _ => false

/-- Whether this is the empty text. -/
def isEmptyText : Value → Bool
  | .text s => s.isEmpty
  | _ => false

/-- The text that this is. -/
def asText? : Value → Option String
  | .text s => some s
  | _ => none

/-- The truth value that this is. -/
def asBool? : Value → Option Bool
  | .bool b => some b
  | _ => none

/-- The whole number that this is. -/
def asInteger? : Value → Option Int64
  | .integer n => some n
  | _ => none

/-- The number that this is; a whole number is rounded to a floating point number. -/
def asDecimal? : Value → Option Float
  | .integer n => some (Number.toFloat n)
  | .decimal x => some x
  | _ => none

/-- The object that this is. -/
def asBean? : Value → Option Bean
  | .object bean => some bean
  | _ => none

/-- The value as a text. An object is written as the name of its type and its instance. -/
def display : Value → String
  | .null => "null"
  | .bool b => if b then "true" else "false"
  | .integer n => toString n.toInt
  | .decimal x => Number.plainText x
  | .text s => s
  | .object bean => bean.typeName ++ "@" ++ toString bean.identity

mutual

/-- Numbers the instances of a value from `next` on; yields the next free number too. -/
def number (next : Nat) : Value → Value × Nat
  | .object ⟨_, typeName, properties⟩ =>
    let (properties, free) := numberProperties (next + 1) properties
    (.object ⟨next, typeName, properties⟩, free)
  | value => (value, next)

/-- Numbers the instances among the values of properties. -/
def numberProperties (next : Nat) : List (String × Value) → List (String × Value) × Nat
  | [] => ([], next)
  | (name, value) :: rest =>
    let (value, free) := number next value
    let (rest, free) := numberProperties free rest
    ((name, value) :: rest, free)

end

end Value

namespace Record

/-- Value of a property, if the object has it. -/
def property? {α : Type} (bean : Record α) (name : String) : Option α :=
  Keyed.find? name bean.properties

/-- An object of the given type without properties. -/
def ofType {α : Type} (typeName : String) : Record α :=
  ⟨0, typeName, []⟩

/-- The object with one more property. -/
def put {α : Type} (bean : Record α) (name : String) (value : α) : Record α :=
  { bean with properties := Keyed.insert name value bean.properties }

/-- Value of a property; null if the object does not have it. -/
def valueOf (bean : Bean) (name : String) : Value :=
  (bean.property? name).getD .null

/-- Numbers the instances of an object. -/
def number (next : Nat) (bean : Bean) : Bean × Nat :=
  let (properties, free) := Value.numberProperties (next + 1) bean.properties
  (⟨next, bean.typeName, properties⟩, free)

end Record

end FieldGuard
