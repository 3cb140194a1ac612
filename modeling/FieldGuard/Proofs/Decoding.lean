import FieldGuard.Component.Json
import FieldGuard.Message
import FieldGuard.Proofs.SameContent
import FieldGuard.TypeModel.Json
import FieldGuard.Value.Json

/-!
# `FieldGuard.Proofs.Decoding`: what is written as JSON is read back

Values, annotations, declarations, validators, messages and components are written as JSON with
the member names, tags and defaults of their types. Reading gives back what was written, if its
floating point numbers are finite: the others have no number in JSON and are written as `null`.
JSON stands for the tree of its values here; the digits of a number are the printer's matter.

The proofs follow the types. A type with named members is read from these in any order
(`required?_ofList` and its companions), so each of them is one pass of the members. Values and
constraints hold values and constraints again, and are taken together with their lists.

* `Value.Finite`, `Annotation.Finite`, …: all floating point numbers are finite;
* `Value.ofJson?_toJson`: a value comes back as a fresh instance;
* `decoding_undoes_encoding`: all types together.
-/

set_option autoImplicit false

namespace FieldGuard

open Json (required?_ofList defaulted?_ofList optional?_ofList)

/-! ### Values without members -/

namespace Json

@[simp] theorem asString?_string (s : String) : (string s).asString? = some s := rfl

@[simp] theorem asBool?_bool (b : Bool) : (bool b).asBool? = some b := rfl

@[simp] theorem asUInt64?_ofUInt64 (n : UInt64) : (ofUInt64 n).asUInt64? = some n :=
  Number.uint64?_toNat n

@[simp] theorem asInt64?_ofInt64 (n : Int64) : (ofInt64 n).asInt64? = some n :=
  Number.int64?_toInt n

theorem ofFloat_of_isFinite {x : Float} (h : Number.isFinite x = true) : ofFloat x = .float x :=
  if_pos h

theorem asFloat?_ofFloat {x : Float} (h : Number.isFinite x = true) :
    (ofFloat x).asFloat? = some x := by
  rw [ofFloat_of_isFinite h]
  rfl

theorem asObject?_ofMembers (members : List (String × Json)) :
    (ofMembers members).asObject? = some (Keyed.ofList members) := rfl

section

variable {α : Type} {name : String} {members : List (String × Json)}

@[simp] theorem optional?_cons_text (o : Option String) :
    optional? name asString? ((name, orNull .string o) :: members) = some o :=
  optional?_cons_orNull fun _ _ => ⟨rfl, Json.noConfusion⟩

@[simp] theorem optional?_cons_bool (o : Option Bool) :
    optional? name asBool? ((name, orNull .bool o) :: members) = some o :=
  optional?_cons_orNull fun _ _ => ⟨rfl, Json.noConfusion⟩

@[simp] theorem optional?_cons_uint64 (o : Option UInt64) :
    optional? name asUInt64? ((name, orNull ofUInt64 o) :: members) = some o :=
  optional?_cons_orNull fun n _ => ⟨asUInt64?_ofUInt64 n, Json.noConfusion⟩

@[simp] theorem optional?_cons_int64 (o : Option Int64) :
    optional? name asInt64? ((name, orNull ofInt64 o) :: members) = some o :=
  optional?_cons_orNull fun n _ => ⟨asInt64?_ofInt64 n, Json.noConfusion⟩

/-- What is read of an object with a tag depends on the tag and the members. -/
theorem bind_tag {key tag : String} {read : String → List (String × Json) → Option α}
    (h : (((key, string tag) :: members).map (·.1)).Nodup) :
    ((ofMembers ((key, .string tag) :: members)).asObject?.bind fun members =>
        (required? key asString? members).bind fun tag => read tag members)
      = read tag (Keyed.ofList ((key, .string tag) :: members)) := by
  rw [asObject?_ofMembers, Option.bind_some, required?_ofList h, required?_cons, if_pos rfl,
    asString?_string, Option.bind_some]

end

end Json

/-! ### Values and objects -/

namespace Value

mutual

/-- All floating point numbers of the value are finite. -/
def Finite : Value → Prop
  | .decimal x => Number.isFinite x = true
  | .object ⟨_, _, properties⟩ => FiniteProperties properties
  | _ => True

/-- All floating point numbers of the properties are finite. -/
def FiniteProperties : List (String × Value) → Prop
  | [] => True
  | (_, value) :: rest => value.Finite ∧ FiniteProperties rest

end

mutual

/-- The value with objects that have not been numbered. -/
def fresh : Value → Value
  | .object ⟨_, typeName, properties⟩ => .object ⟨0, typeName, freshProperties properties⟩
  | value => value

/-- The properties with objects that have not been numbered. -/
def freshProperties : List (String × Value) → List (String × Value)
  | [] => []
  | (name, value) :: rest => (name, value.fresh) :: freshProperties rest

end

mutual

/-- The instances do not matter for equality. -/
theorem same_fresh {v : Value} (h : v.Finite) : same v v.fresh = true := by
  cases v with
  | null => rfl
  | bool b => simp [fresh, same]
  | integer n => simp [fresh, same]
  | decimal x => exact Number.sameNumber_self (Number.isNaN_of_isFinite h)
  | text s => simp [fresh, same]
  | object bean =>
    obtain ⟨id, typeName, properties⟩ := bean
    simp [fresh, same, sameProperties_fresh h]

theorem sameProperties_fresh {properties : List (String × Value)}
    (h : FiniteProperties properties) :
    sameProperties properties (freshProperties properties) = true := by
  cases properties with
  | nil => rfl
  | cons pair rest =>
    obtain ⟨name, value⟩ := pair
    simp [freshProperties, sameProperties, same_fresh h.1, sameProperties_fresh h.2]

end

mutual

/-- A value comes back as a fresh instance. -/
theorem ofJson?_toJson {v : Value} (h : v.Finite) : ofJson? v.toJson = some v.fresh := by
  cases v with
  | null => rfl
  | bool b => rfl
  | integer n => simp [toJson, ofJson?, ofWhole, Number.int64?_toInt, fresh]
  | decimal x =>
    rw [toJson, Json.ofFloat_of_isFinite h]
    rfl
  | text s => rfl
  | object bean =>
    obtain ⟨id, typeName, properties⟩ := bean
    simp [toJson, ofJson?, propertiesOf?, valuesOf?_propertiesToJson h, fresh]

theorem valuesOf?_propertiesToJson {properties : List (String × Value)}
    (h : FiniteProperties properties) :
    valuesOf? (propertiesToJson properties) = some (freshProperties properties) := by
  cases properties with
  | nil => rfl
  | cons pair rest =>
    obtain ⟨name, value⟩ := pair
    simp [propertiesToJson, valuesOf?, ofJson?_toJson h.1, valuesOf?_propertiesToJson h.2,
      freshProperties]

end

end Value

/-! ### Constraints -/

theorem Rule.ofJson?_toJson (r : Rule) : ofJson? r.toJson = some r := by
  have htag : ∀ {tag : String} {members : List (String × Json)},
      ((("kind", Json.string tag) :: members).map (·.1)).Nodup →
      ofJson? (.ofMembers (("kind", .string tag) :: members))
        = ofMembers? tag (Keyed.ofList (("kind", .string tag) :: members)) := Json.bind_tag
  cases r <;> rw [toJson, htag (by simp)] <;> simp [ofMembers?, required?_ofList, defaulted?_ofList]

namespace Constraint

/-- The constraints that this is composed with are those in its first member of the name. -/
theorem composingOf?_eq (members : List (String × Json)) :
    composingOf? members
      = match Keyed.find? "composing" members with
        | none => some []
        | some (.array items) => listOf? items
        | some _ => none := by
  induction members with
  | nil => rfl
  | cons member rest ih =>
    obtain ⟨name, value⟩ := member
    by_cases h : name = "composing"
    · subst h
      cases value <;> rfl
    · cases value <;> simp only [composingOf?, Keyed.find?_cons, if_neg h, ih]

/-- A constraint is read from any members that contain its own. -/
theorem ofJson?_object {members : List (String × Json)} {c : Constraint}
    (h : ∀ member ∈ c.toMembers, Keyed.find? member.1 members = some member.2)
    (hcomposing : listOf? (listToJson c.composing) = some c.composing) :
    ofJson? (.object members) = some c := by
  obtain ⟨rule, groups, message, composing⟩ := c
  simp only [toMembers, List.forall_mem_cons] at h
  obtain ⟨hrule, hgroups, hmessage, hlist, -⟩ := h
  have hcomposed : composingOf? members = some composing := by
    rw [composingOf?_eq, hlist]
    exact hcomposing
  cases message <;>
    simp_all [ofJson?, Json.required?, Json.defaulted?, Json.optional?, Json.orNull,
      Rule.ofJson?_toJson]

theorem nodup_toMembers (c : Constraint) :
    ((("type", Json.string "Constraint") :: c.toMembers).map (·.1)).Nodup := by
  cases c
  simp [toMembers]

mutual

theorem ofJson?_toJson (c : Constraint) : ofJson? c.toJson = some c := by
  refine ofJson?_object (fun member hmember => ?_) ?_
  · have hnodup := (List.nodup_cons.1 c.nodup_toMembers).2
    rw [Keyed.find?_ofList hnodup]
    exact (Keyed.find?_eq_some_iff hnodup).2 hmember
  · cases c with
    | mk rule groups message composing => exact listOf?_listToJson composing

theorem listOf?_listToJson (cs : List Constraint) : listOf? (listToJson cs) = some cs := by
  cases cs with
  | nil => rfl
  | cons c rest =>
    have hhead : ofJson? (.ofMembers c.toMembers) = some c := ofJson?_toJson c
    rw [listToJson, listOf?, hhead, listOf?_listToJson rest]
    rfl

end

end Constraint

/-! ### Annotations -/

theorem ModelValidation.ofJson?_toJson (m : ModelValidation) : ofJson? m.toJson = some m := by
  rw [toJson, ofJson?, Json.asObject?_ofMembers]
  simp [defaulted?_ofList]

namespace Annotation

/-- The limits of the annotation are finite, if they are floating point numbers. -/
def Finite : Annotation → Prop
  | .decimalRange r => Number.isFinite r.minimum = true ∧ Number.isFinite r.maximum = true
  | _ => True

theorem ofJson?_ofMembers {tag : String} {members : List (String × Json)}
    (h : ((("type", Json.string tag) :: members).map (·.1)).Nodup) :
    ofJson? (.ofMembers (("type", .string tag) :: members))
      = ofMembers? tag (Keyed.ofList (("type", .string tag) :: members)) :=
  Json.bind_tag h

theorem ofJson?_toJson_controller (c : GroupController) :
    ofJson? (toJson (.controller c)) = some (.controller c) := by
  rw [toJson, toMembers, GroupController.toMembers, ofJson?_ofMembers (by simp)]
  simp [ofMembers?, GroupController.ofMembers?, kind, Kind.tag, defaulted?_ofList,
    ModelValidation.ofJson?_toJson]

theorem ofJson?_toJson_constraint (c : Constraint) :
    ofJson? (toJson (.constraint c)) = some (.constraint c) := by
  have hread : Constraint.ofJson?
      (.object (Keyed.ofList (("type", .string "Constraint") :: c.toMembers))) = some c := by
    refine Constraint.ofJson?_object (fun member hmember => ?_) (Constraint.listOf?_listToJson _)
    rw [Keyed.find?_ofList c.nodup_toMembers]
    exact (Keyed.find?_eq_some_iff c.nodup_toMembers).2 (List.mem_cons_of_mem _ hmember)
  rw [toJson, toMembers]
  refine (ofJson?_ofMembers c.nodup_toMembers).trans ?_
  show (Constraint.ofJson? _).map Annotation.constraint = _
  rw [hread]
  rfl

theorem ofJson?_toJson {a : Annotation} (h : a.Finite) : ofJson? a.toJson = some a := by
  cases a with
  | controller c => exact ofJson?_toJson_controller c
  | constraint c => exact ofJson?_toJson_constraint c
  | decimalRange r =>
    rw [toJson, toMembers, ofJson?_ofMembers (by simp)]
    simp [ofMembers?, message?, kind, Kind.tag, defaulted?_ofList, optional?_ofList,
      Json.asFloat?_ofFloat h.1, Json.asFloat?_ofFloat h.2]
  | _ =>
    rw [toJson, toMembers, ofJson?_ofMembers (by simp)]
    simp [ofMembers?, message?, texts?, kind, Kind.tag, required?_ofList, defaulted?_ofList,
      optional?_ofList]

theorem listOf?_listToJson {annotations : List Annotation} (h : ∀ a ∈ annotations, a.Finite) :
    listOf? (listToJson annotations) = some annotations :=
  Json.listOf?_map fun a ha => ofJson?_toJson (h a ha)

end Annotation

/-! ### Declarations -/

namespace PropertyDecl

/-- The annotations of the property are finite. -/
def Finite (p : PropertyDecl) : Prop :=
  ∀ a ∈ p.annotations, a.Finite

/-- No accessor is written as `null`, which is read as none and not as the default. -/
theorem accessorOf?_orNull (accessor : Option Accessor) :
    accessorOf? (Json.orNull (fun a => .string a.name) accessor) = some accessor := by
  cases accessor with
  | none => rfl
  | some a => simp [Json.orNull, accessorOf?]

theorem ofJson?_toJson {p : PropertyDecl} (h : p.Finite) : ofJson? p.toJson = some p := by
  have hfield := Annotation.listOf?_listToJson fun a ha => h a (List.mem_append_right _ ha)
  have haccessor := Annotation.listOf?_listToJson fun a ha => h a (List.mem_append_left _ ha)
  rw [toJson, ofJson?, Json.asObject?_ofMembers]
  simp [required?_ofList, defaulted?_ofList, accessorOf?_orNull, hfield, haccessor]

end PropertyDecl

namespace TypeDecl

/-- The annotations of the type and of its properties are finite. -/
structure Finite (t : TypeDecl) : Prop where
  annotations : ∀ a ∈ t.annotations, a.Finite
  properties : ∀ p ∈ t.properties, p.Finite

theorem ofJson?_toJson {t : TypeDecl} (h : t.Finite) : ofJson? t.toJson = some t := by
  have hannotations := Annotation.listOf?_listToJson h.annotations
  have hproperties : Json.listOf? PropertyDecl.ofJson? (.array (t.properties.map PropertyDecl.toJson))
      = some t.properties :=
    Json.listOf?_map fun p hp => PropertyDecl.ofJson?_toJson (h.properties p hp)
  rw [toJson, ofJson?, Json.asObject?_ofMembers]
  simp [required?_ofList, defaulted?_ofList, optional?_ofList, hannotations, hproperties]

end TypeDecl

namespace TypeModel

/-- The declarations of the model are finite. -/
def Finite (m : TypeModel) : Prop :=
  ∀ pair ∈ m.types.pairs, pair.2.Finite

theorem ofJson?_toJson {m : TypeModel} (h : m.Finite) : ofJson? m.toJson = some m := by
  have hpairs : Json.pairsOf? TypeDecl.ofJson? m.toJson = some m.types.pairs :=
    Json.pairsOf?_map fun pair hpair => TypeDecl.ofJson?_toJson (h pair hpair)
  rw [ofJson?, hpairs, Option.map_some, Dict.ofList_pairs]

end TypeModel

/-! ### Validators, messages and components -/

namespace HostValidator

/-- The limits of the validator are finite, if they are floating point numbers. -/
def Finite : HostValidator → Prop
  | .decimalRange minimum maximum =>
    (∀ x ∈ minimum, Number.isFinite x = true) ∧ ∀ x ∈ maximum, Number.isFinite x = true
  | _ => True

theorem optional?_cons_float {name : String} {members : List (String × Json)} {o : Option Float}
    (h : ∀ x ∈ o, Number.isFinite x = true) :
    Json.optional? name Json.asFloat? ((name, Json.orNull Json.ofFloat o) :: members) = some o := by
  refine Json.optional?_cons_orNull fun x hx => ⟨Json.asFloat?_ofFloat (h x hx), ?_⟩
  rw [Json.ofFloat_of_isFinite (h x hx)]
  exact Json.noConfusion

theorem ofJson?_ofMembers {tag : String} {members : List (String × Json)}
    (h : ((("type", Json.string tag) :: members).map (·.1)).Nodup) :
    ofJson? (.ofMembers (("type", .string tag) :: members))
      = ofMembers? tag (Keyed.ofList (("type", .string tag) :: members)) :=
  Json.bind_tag h

theorem ofJson?_toJson {v : HostValidator} (h : v.Finite) : ofJson? v.toJson = some v := by
  cases v with
  | decimalRange minimum maximum =>
    rw [toJson, ofJson?_ofMembers (by simp)]
    simp [ofMembers?, optional?_ofList, optional?_cons_float h.1, optional?_cons_float h.2]
  | _ =>
    rw [toJson, ofJson?_ofMembers (by simp)]
    simp [ofMembers?, required?_ofList, optional?_ofList]

theorem listOf?_listToJson {validators : List HostValidator} (h : ∀ v ∈ validators, v.Finite) :
    Json.listOf? ofJson? (listToJson validators) = some validators :=
  Json.listOf?_map fun v hv => ofJson?_toJson (h v hv)

end HostValidator

theorem Message.ofJson?_toJson (m : Message) : ofJson? m.toJson = some m := by
  simp [toJson, ofJson?, Json.asObject?, Severity.ofName?_name]

namespace Component

/-- The validators of the component are finite. -/
structure Finite (c : Component) : Prop where
  validators : ∀ v ∈ c.validators, v.Finite
  attached : ∀ pair ∈ c.attached.pairs, pair.2.Finite

theorem ofJson?_toJson {c : Component} (h : c.Finite) (hconverter : c.converter = none) :
    ofJson? c.toJson = some c := by
  have hvalidators := HostValidator.listOf?_listToJson h.validators
  have hattached := Json.pairsOf?_map fun pair hpair =>
    HostValidator.ofJson?_toJson (h.attached pair hpair)
  rw [toJson, ofJson?, Json.asObject?_ofMembers]
  simp [required?_ofList, defaulted?_ofList, optional?_ofList, hvalidators, hattached,
    Json.asObject?, Dict.ofList_pairs, ← hconverter]

end Component

/-! ### All types -/

/-- Reading what is written as JSON gives back an equal value, if its floating point numbers are
finite: for values and objects nested to any depth, which come back as fresh instances, for
annotations with constraints composed to any depth, for declarations of properties and types, for
type models, validators and messages, and for components, which are written without their
converter. So whole numbers and floating point numbers stay apart, an accessor that is missing
stays missing, and limits at the end of their range stay where they are. -/
theorem decoding_undoes_encoding :
    (∀ v : Value, v.Finite → Value.ofJson? v.toJson = some v.fresh ∧ v.same v.fresh = true) ∧
    (∀ b : Bean, (Value.object b).Finite →
      ∃ b' : Bean, Record.ofJson? b.toJson = some b' ∧ (Value.object b).fresh = .object b' ∧
        (Value.object b).same (.object b') = true) ∧
    (∀ a : Annotation, a.Finite → Annotation.ofJson? a.toJson = some a) ∧
    (∀ c : Constraint, Constraint.ofJson? c.toJson = some c) ∧
    (∀ p : PropertyDecl, p.Finite → PropertyDecl.ofJson? p.toJson = some p) ∧
    (∀ t : TypeDecl, t.Finite → TypeDecl.ofJson? t.toJson = some t) ∧
    (∀ m : TypeModel, m.Finite → TypeModel.ofJson? m.toJson = some m) ∧
    (∀ v : HostValidator, v.Finite → HostValidator.ofJson? v.toJson = some v) ∧
    (∀ m : Message, Message.ofJson? m.toJson = some m) ∧
    (∀ c : Component, c.Finite → c.converter = none → Component.ofJson? c.toJson = some c) := by
  refine ⟨fun v h => ⟨Value.ofJson?_toJson h, Value.same_fresh h⟩, fun b h => ?_,
    fun a => Annotation.ofJson?_toJson, Constraint.ofJson?_toJson,
    fun p => PropertyDecl.ofJson?_toJson, fun t => TypeDecl.ofJson?_toJson,
    fun m => TypeModel.ofJson?_toJson, fun v => HostValidator.ofJson?_toJson,
    Message.ofJson?_toJson, fun c => Component.ofJson?_toJson⟩
  obtain ⟨id, typeName, properties⟩ := b
  refine ⟨⟨0, typeName, Value.freshProperties properties⟩, ?_, rfl, Value.same_fresh h⟩
  rw [Record.ofJson?, Record.toJson, Value.ofJson?_toJson h]
  rfl

/-- An order with a line whose price is a whole number as a floating point number. -/
def pricedOrder : Value :=
  .object ⟨1, "Order", [("line", .object ⟨2, "Line", [("price", .decimal 5)]⟩), ("note", .null)]⟩

/-- A property without accessor, limited by nothing. -/
def unlimitedProperty : PropertyDecl :=
  (((PropertyDecl.new "code").withoutAccessor.onField (.length {})).onField (.wholeRange {})).onField
    (.decimalRange {})

/-- The price comes back as a floating point number, and the property without accessor. -/
theorem decoding_undoes_encoding_order :
    pricedOrder.Finite ∧
    Value.ofJson? pricedOrder.toJson
      = some (.object ⟨0, "Order",
        [("line", .object ⟨0, "Line", [("price", .decimal 5)]⟩), ("note", .null)]⟩) ∧
    unlimitedProperty.Finite ∧
    PropertyDecl.ofJson? unlimitedProperty.toJson = some unlimitedProperty ∧
    unlimitedProperty.accessor = none := by
  obtain ⟨hvalue, -, -, -, hproperty, -⟩ := decoding_undoes_encoding
  have hprice : Number.isFinite 5 = true := by decide +kernel
  have horder : pricedOrder.Finite := ⟨⟨hprice, trivial⟩, trivial, trivial⟩
  have hunlimited : unlimitedProperty.Finite := by
    intro a ha
    have hlimits : a = .length {} ∨ a = .wholeRange {} ∨ a = .decimalRange {} := by
      simpa [unlimitedProperty, PropertyDecl.annotations, PropertyDecl.onField, PropertyDecl.new,
        PropertyDecl.withoutAccessor] using ha
    rcases hlimits with rfl | rfl | rfl
    · trivial
    · trivial
    · exact ⟨by decide +kernel, by decide +kernel⟩
  exact ⟨horder, (hvalue _ horder).1, hunlimited, hproperty _ hunlimited, rfl⟩

end FieldGuard
