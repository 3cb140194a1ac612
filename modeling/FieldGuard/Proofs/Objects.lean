import FieldGuard.Engine.Basic
import FieldGuard.Engine.Groups

/-!
# `FieldGuard.Proofs.Objects`: the objects that a page can reach

Objects are told apart by their identities. That only makes sense among objects of one
page, of which no two share an identity. The owner of every property is such an object.

* `Scope.objects`: all objects that values of a scope hold, at any depth;
* `Evaluation.detailsOf_eq_ok_iff`: what it takes to have details, and what they are;
* `Engine.ObjectsOn`: the objects that the lookups of an engine on a page stay among;
* `Engine.objectsOn_standard`: with the standard evaluator and extractor these are the
  objects of the scope.
-/

set_option autoImplicit false

namespace FieldGuard

/-- A sequence of two computations succeeds just when both do. -/
theorem ok_of_bind {ε α β : Type} {x : Except ε α} {f : α → Except ε β} {b : β}
    (h : (x >>= f) = .ok b) : ∃ a, x = .ok a ∧ f a = .ok b := by
  cases x with
  | error fault => cases h
  | ok a => exact ⟨a, rfl, h⟩

namespace Value

mutual

/-- All objects in a value, the value itself first. -/
def objects : Value → List Bean
  | .object ⟨identity, typeName, properties⟩ =>
    ⟨identity, typeName, properties⟩ :: objectsOfAll properties
  | _ => []

/-- All objects in the values of properties. -/
def objectsOfAll : List (String × Value) → List Bean
  | [] => []
  | (_, value) :: rest => objects value ++ objectsOfAll rest

end

theorem eq_object_of_asBean? {value : Value} {bean : Bean} (h : value.asBean? = some bean) :
    value = .object bean := by
  cases value with
  | object b =>
    cases h
    rfl
  | _ => cases h

theorem mem_objects_self (bean : Bean) : bean ∈ (Value.object bean).objects := by
  cases bean
  rw [objects]
  exact List.mem_cons_self

theorem mem_objectsOfAll {properties : List (String × Value)} {name : String} {value : Value}
    {bean : Bean} (hmem : (name, value) ∈ properties) (hbean : bean ∈ value.objects) :
    bean ∈ objectsOfAll properties := by
  induction properties with
  | nil => simp at hmem
  | cons property rest ih =>
    obtain ⟨n, v⟩ := property
    rw [objectsOfAll, List.mem_append]
    rcases List.mem_cons.1 hmem with h | h
    · cases h
      exact .inl hbean
    · exact .inr (ih h)

/-- An object holds the objects that the values of its properties hold. -/
theorem mem_objects_of_valueOf {owner bean : Bean} {name : String}
    (h : bean ∈ (owner.valueOf name).objects) : bean ∈ (Value.object owner).objects := by
  cases hvalue : owner.property? name with
  | none =>
    rw [Record.valueOf, hvalue] at h
    simp [objects] at h
  | some value =>
    rw [Record.valueOf, hvalue] at h
    have hmem : (name, value) ∈ owner.properties := Keyed.mem_of_find?_eq_some hvalue
    cases owner
    rw [objects]
    exact List.mem_cons_of_mem _ (mem_objectsOfAll hmem h)

end Value

/-- All objects that the values of a scope hold. -/
def Scope.objects (scope : Scope) : List Bean :=
  scope.values.flatMap Value.objects

/-- The value holds no other objects than the scope does. -/
def Value.Within (scope : Scope) (value : Value) : Prop :=
  ∀ bean ∈ value.objects, bean ∈ Scope.objects scope

theorem Value.within_of_get? {scope : Scope} {name : String} {value : Value}
    (h : scope.get? name = some value) : value.Within scope := by
  intro bean hbean
  have hmem : (name, value) ∈ scope.pairs := Keyed.mem_of_find?_eq_some h
  exact List.mem_flatMap.2 ⟨value, List.mem_map.2 ⟨(name, value), hmem, rfl⟩, hbean⟩

/-- The value that the property of a binding is read from: the object, or null. -/
def Details.baseValue (d : Details) : Value :=
  match d.base with
  | some bean => .object bean
  | none => .null

namespace Evaluation

variable {scope : Scope} {nested : List Char → Except Fault Value}

/-- Navigation stays within the objects it starts from. -/
theorem within_walk {steps : List Step} {current value : Value}
    (hcurrent : current.Within scope) (h : walk nested current steps = .ok value) :
    value.Within scope := by
  induction steps generalizing current with
  | nil =>
    rw [walk] at h
    cases h
    exact hcurrent
  | cons step rest ih =>
    rw [walk] at h
    obtain ⟨name, -, h⟩ := ok_of_bind h
    split at h
    · cases h
      exact hcurrent
    · next bean =>
      refine ih ?_ h
      intro inner hinner
      exact hcurrent inner (Value.mem_objects_of_valueOf hinner)
    · cases h

theorem within_follow {steps : List Step} {value : Value}
    (h : follow nested scope steps = .ok value) : value.Within scope := by
  cases steps with
  | nil => simp [follow] at h
  | cons root rest =>
    rw [follow] at h
    split at h
    · cases h
    · next start hstart => exact within_walk (Value.within_of_get? hstart) h

/-- A binding has details if it is well-formed, has a step after its root, all of its steps have
names, and it leads to an object or to null. -/
theorem detailsOf_eq_ok_iff {b : Binding} {d : Details} :
    detailsOf scope b = .ok d ↔
      b.isTerm = true ∧ 2 ≤ b.steps.length ∧
      ∃ names, namesOf (evaluate scope) b.steps = .ok names ∧
        follow (evaluate scope) scope b.steps.dropLast = .ok d.baseValue ∧
        d.key = ".".intercalate names ∧ d.property = names.getLastD "" := by
  unfold detailsOf
  constructor
  · intro h
    split at h
    · cases h
    · next hterm =>
      dsimp only at h
      split at h
      · cases h
      · next hlength =>
        obtain ⟨names, hnames, h⟩ := ok_of_bind h
        obtain ⟨value, hfollow, h⟩ := ok_of_bind h
        refine ⟨by simpa using hterm, Nat.le_of_not_lt hlength, names, hnames, ?_⟩
        split at h
        · cases h
          exact ⟨hfollow, rfl, rfl⟩
        · cases h
          exact ⟨hfollow, rfl, rfl⟩
        · cases h
  · rintro ⟨hterm, hlength, names, hnames, hfollow, hkey, hproperty⟩
    obtain ⟨key, base, property⟩ := d
    cases hkey
    cases hproperty
    rw [if_neg (by simp [hterm])]
    dsimp only
    rw [if_neg (Nat.not_lt.2 hlength), hnames]
    show (follow (evaluate scope) scope b.steps.dropLast >>= _) = _
    rw [hfollow]
    cases base <;> rfl

/-- The owner of a property is an object of the scope. -/
theorem mem_objects_of_details {binding : Binding} {d : Details} {owner : Bean}
    (h : detailsOf scope binding = .ok d) (hbase : d.base = some owner) :
    owner ∈ Scope.objects scope := by
  obtain ⟨-, -, names, -, hfollow, -, -⟩ := detailsOf_eq_ok_iff.1 h
  rw [Details.baseValue, hbase] at hfollow
  exact within_follow hfollow owner (Value.mem_objects_self owner)

end Evaluation

@[simp] theorem PropertyInfo.details?_ofEntries (d : Details) (entries : List Entry) :
    (ofEntries d entries).details? = some d := by
  simp [details?, detailsAt?, ofEntries]

/-- Extraction locates the property first. If there is an object that it belongs to, the type of the
object has to be known and the property has to be readable. -/
theorem Extraction.extract_eq_ok_iff {env : Environment} {page : Page} {target : Target}
    {info : PropertyInfo} :
    extract env page target = .ok info ↔
      ∃ d binding, locate env page target = .ok (d, binding) ∧
        ((d.base = none ∧ PropertyInfo.ofEntries d [] = info) ∨
          ∃ owner, d.base = some owner ∧ env.types.contains owner.typeName = true ∧
            (env.types.readableAccessor? owner.typeName d.property).isSome = true ∧
            PropertyInfo.ofEntries d (entries env.types owner.typeName d.property binding)
              = info) := by
  rw [extract]
  cases locate env page target with
  | error fault => simp [bind, Except.bind]
  | ok found =>
    obtain ⟨d, binding⟩ := found
    cases hbase : d.base with
    | none => simp [bind, Except.bind, hbase, and_assoc]
    | some owner =>
      cases hknown : env.types.contains owner.typeName with
      | false => simp [bind, Except.bind, hbase, ofOwner, hknown]
      | true =>
        cases hread : env.types.readableAccessor? owner.typeName d.property with
        | none => simp [bind, Except.bind, hbase, ofOwner, hknown, hread]
        | some accessor => simp [bind, Except.bind, hbase, ofOwner, hknown, hread, and_assoc]

/-- Whichever way it goes on, the located details are the only fact that it tells. -/
theorem Extraction.located_of_extract {env : Environment} {page : Page} {target : Target}
    {info : PropertyInfo} (h : extract env page target = .ok info) :
    ∃ d binding entries, locate env page target = .ok (d, binding) ∧
      PropertyInfo.ofEntries d entries = info := by
  obtain ⟨d, binding, hlocate, ⟨-, hinfo⟩ | ⟨owner, -, -, -, hinfo⟩⟩ := extract_eq_ok_iff.1 h
  · exact ⟨d, binding, _, hlocate, hinfo⟩
  · exact ⟨d, binding, _, hlocate, hinfo⟩

namespace Engine

/-- The objects among which an engine stays on a page: no two of them share an identity, and
named objects and the owners of properties are some of them. -/
structure ObjectsOn (e : Engine) (page : Page) (alive : Bean → Prop) : Prop where
  distinct : ∀ a b, alive a → alive b → a.identity = b.identity → a = b
  named : ∀ name bean, e.env.evaluator.bean? page.scope name = some (.object bean) → alive bean
  owner : ∀ r : Request, r.page = page → ∀ c b, e.bound? r c = some b →
    ∀ bean, b.details.base = some bean → alive bean

/-- A property that can be validated comes from an extraction that tells its details. -/
theorem extract_of_bound {e : Engine} {r : Request} {c : Component} {b : Bound}
    (h : e.bound? r c = some b) :
    e.extract r c = .ok b.info ∧ b.info.details? = some b.details := by
  unfold bound? at h
  split at h
  · cases h
  · next info hinfo =>
    obtain ⟨d, hd, h⟩ := Option.bind_eq_some_iff.1 h
    obtain ⟨owner, -, rfl⟩ := Option.map_eq_some_iff.1 h
    exact ⟨hinfo, hd⟩

/-- The standard extractor tells the details that it has located. -/
theorem located_of_bound {e : Engine} (hextractor : e.extractor = .standard) {r : Request}
    {c : Component} {b : Bound} (h : e.bound? r c = some b) :
    ∃ binding, Extraction.locate e.env r.page (.component c) = .ok (b.details, binding) := by
  obtain ⟨hinfo, hd⟩ := extract_of_bound h
  rw [extract, hextractor] at hinfo
  obtain ⟨d, binding, entries, hlocate, hentries⟩ := Extraction.located_of_extract hinfo
  rw [← hentries, PropertyInfo.details?_ofEntries] at hd
  cases hd
  exact ⟨binding, hlocate⟩

/-- With the standard evaluator and extractor an engine stays among the objects of the scope,
provided that one identity is one object among these. -/
theorem objectsOn_standard {e : Engine} (hevaluator : e.env.evaluator = .standard)
    (hextractor : e.extractor = .standard) {page : Page}
    (hdistinct : ∀ a ∈ Scope.objects page.scope, ∀ b ∈ Scope.objects page.scope,
      a.identity = b.identity → a = b) :
    e.ObjectsOn page fun bean => bean ∈ Scope.objects page.scope where
  distinct a b ha hb hsame := hdistinct a ha b hb hsame
  named name bean hnamed := by
    rw [hevaluator] at hnamed
    exact Value.within_of_get? hnamed bean (Value.mem_objects_self bean)
  owner r hr c b hbound bean hbase := by
    rw [← hr]
    obtain ⟨binding, hlocate⟩ := located_of_bound hextractor hbound
    -- A component is located by the details of its binding.
    have hdetails : ∃ text, Evaluation.detailsOf r.page.scope ⟨text⟩ = .ok b.details := by
      unfold Extraction.locate at hlocate
      dsimp only at hlocate
      split at hlocate
      · next text htext =>
        unfold Extraction.locateBinding at hlocate
        split at hlocate
        · obtain ⟨d, hd, hpair⟩ := ok_of_bind hlocate
          rw [hevaluator] at hd
          cases hpair
          exact ⟨text, hd⟩
        · cases hlocate
      · cases hlocate
    obtain ⟨text, hd⟩ := hdetails
    exact Evaluation.mem_objects_of_details hd hbase

end Engine

end FieldGuard
