import FieldGuard.Engine.Groups
import FieldGuard.Engine.ModelTargets
import FieldGuard.Extraction.Join
import Mathlib.Data.List.Forall2
import Mathlib.Data.Option.Basic

/-!
# `FieldGuard.Proofs.Pruning`: type models without some of their annotations

Annotations are left out of a type model, any number of them, on types and on properties. The
hierarchy of a type is the same then: names, superclasses and interfaces have stayed. Along it stand
the same declarations, each without some annotations. So a search for annotations of one sort finds
the same as long as none of that sort has been left out.

* `PrunedList`: a list without some of its idle elements, and what does not show that;
* `TypeModel.Pruned`: a type model without some of its annotations;
* `TypeModel.Pruned.hierarchy`, `TypeModel.Pruned.declarations`: the same types and declarations;
* `TypeModel.Pruned.ofOwner_eq`, `TypeModel.Pruned.ofTypes_eq`: extraction does not miss
  controllers, and the constraint engine misses nothing but constraints;
* `TypeModel.Pruned.controllers_eq`, `TypeModel.Pruned.sequence?_eq`: nor does the group scan miss
  controllers that do not count.
-/

set_option autoImplicit false

namespace FieldGuard

variable {α β : Type}

/-! ### Lists with elements left out -/

/-- The second list is the first one without some of its idle elements. -/
inductive PrunedList (idle : α → Prop) : List α → List α → Prop
  | nil : PrunedList idle [] []
  | keep (a : α) {as bs : List α} (h : PrunedList idle as bs) : PrunedList idle (a :: as) (a :: bs)
  | drop {a : α} {as bs : List α} (ha : idle a) (h : PrunedList idle as bs) :
      PrunedList idle (a :: as) bs

namespace PrunedList

variable {idle : α → Prop} {as bs : List α}

theorem append (h : PrunedList idle as bs) {as' bs' : List α} (h' : PrunedList idle as' bs') :
    PrunedList idle (as ++ as') (bs ++ bs') := by
  induction h with
  | nil => exact h'
  | keep a _ ih => exact .keep a ih
  | drop ha _ ih => exact .drop ha ih

/-- What idle elements do not contribute to is collected all the same. -/
theorem filterMap_eq (h : PrunedList idle as bs) {f : α → Option β}
    (hf : ∀ a, idle a → f a = none) : bs.filterMap f = as.filterMap f := by
  induction h with
  | nil => rfl
  | keep a _ ih => rw [List.filterMap_cons, List.filterMap_cons, ih]
  | drop ha _ ih => rw [List.filterMap_cons_none (hf _ ha), ih]

theorem filter_eq (h : PrunedList idle as bs) {p : α → Bool}
    (hp : ∀ a, idle a → p a = false) : bs.filter p = as.filter p := by
  rw [← List.filterMap_eq_filter]
  exact h.filterMap_eq fun a ha => by simp [Option.guard, hp a ha]

theorem any_eq (h : PrunedList idle as bs) {p : α → Bool} (hp : ∀ a, idle a → p a = false) :
    bs.any p = as.any p := by
  induction h with
  | nil => rfl
  | keep a _ ih => rw [List.any_cons, List.any_cons, ih]
  | drop ha _ ih => rw [List.any_cons, hp _ ha, Bool.false_or, ih]

end PrunedList

theorem flatMap_eq_of_forall₂ {R : α → α → Prop} {as bs : List α} (h : List.Forall₂ R as bs)
    {f : α → List β} (hf : ∀ a b, R a b → f b = f a) : bs.flatMap f = as.flatMap f := by
  induction h with
  | nil => rfl
  | cons hab _ ih => rw [List.flatMap_cons, List.flatMap_cons, hf _ _ hab, ih]

theorem PrunedList.flatMap {R : α → α → Prop} {as bs : List α} (h : List.Forall₂ R as bs)
    {idle : β → Prop} {f : α → List β} (hf : ∀ a b, R a b → PrunedList idle (f a) (f b)) :
    PrunedList idle (as.flatMap f) (bs.flatMap f) := by
  induction h with
  | nil => exact .nil
  | cons hab _ ih => exact (hf _ _ hab).append ih

/-! ### Declarations with annotations left out -/

/-- The second declaration is the first one without some idle annotations. -/
structure PropertyDecl.Pruned (idle : Annotation → Prop) (p q : PropertyDecl) : Prop where
  name : q.name = p.name
  hasField : q.hasField = p.hasField
  accessor : q.accessor = p.accessor
  fieldAnnotations : PrunedList idle p.fieldAnnotations q.fieldAnnotations
  accessorAnnotations : PrunedList idle p.accessorAnnotations q.accessorAnnotations

namespace PropertyDecl.Pruned

variable {idle : Annotation → Prop} {p q : PropertyDecl}

theorem annotations (h : p.Pruned idle q) : PrunedList idle p.annotations q.annotations :=
  h.accessorAnnotations.append h.fieldAnnotations

theorem presentAnnotations (h : p.Pruned idle q) :
    PrunedList idle p.presentAnnotations q.presentAnnotations := by
  rw [PropertyDecl.presentAnnotations, PropertyDecl.presentAnnotations, h.accessor, h.hasField]
  refine PrunedList.append ?_ ?_
  · split
    · exact h.accessorAnnotations
    · exact .nil
  · split
    · exact h.fieldAnnotations
    · exact .nil

end PropertyDecl.Pruned

/-- The second declaration is the first one without some annotations: those that are left out on
the type itself are idle on types, and those on its properties are idle on properties. -/
structure TypeDecl.Pruned (onTypes onProperties : Annotation → Prop) (t u : TypeDecl) : Prop where
  name : u.name = t.name
  kind : u.kind = t.kind
  superclass : u.superclass = t.superclass
  interfaces : u.interfaces = t.interfaces
  annotations : PrunedList onTypes t.annotations u.annotations
  properties : List.Forall₂ (PropertyDecl.Pruned onProperties) t.properties u.properties

/-- The second model has the types of the first one without some annotations. -/
def TypeModel.Pruned (onTypes onProperties : Annotation → Prop) (m n : TypeModel) : Prop :=
  ∀ name, Option.Rel (TypeDecl.Pruned onTypes onProperties) (m.get? name) (n.get? name)

/-! ### Look-ups along the hierarchy -/

section

variable {onTypes onProperties : Annotation → Prop}

/-- A property is found under the same name, if at all. -/
theorem TypeDecl.Pruned.property? {t u : TypeDecl} (h : t.Pruned onTypes onProperties u)
    (name : String) :
    Option.Rel (PropertyDecl.Pruned onProperties) (t.property? name) (u.property? name) := by
  unfold TypeDecl.property?
  generalize t.properties = ps, u.properties = qs, h.properties = hproperties
  induction hproperties with
  | nil => exact .none
  | cons hpq _ ih =>
    rw [List.find?_cons, List.find?_cons, hpq.name]
    split
    · exact .some hpq
    · exact ih

namespace TypeModel

variable {m n : TypeModel}

/-- Lists of types that are the same but for some annotations. -/
abbrev ListedAlike (onTypes onProperties : Annotation → Prop) :
    List TypeDecl → List TypeDecl → Prop :=
  List.Forall₂ (TypeDecl.Pruned onTypes onProperties)

theorem isListed_eq {listed listed' : List TypeDecl}
    (h : ListedAlike onTypes onProperties listed listed') (name : String) :
    isListed listed' name = isListed listed name := by
  rw [isListed, isListed]
  induction h with
  | nil => rfl
  | cons htu _ ih => rw [List.any_cons, List.any_cons, htu.name, ih]

/-- A name that leads to no type is passed over. -/
theorem closeUnder_of_none {name : String} (h : m.get? name = none) (rest : List String)
    (listed : List TypeDecl) :
    m.closeUnder (name :: rest) listed = m.closeUnder rest listed := by
  rw [closeUnder]
  split
  · rfl
  · next t ht => simp [h] at ht

/-- A type that is not listed yet is listed, and its interfaces come next. -/
theorem closeUnder_of_some {name : String} {t : TypeDecl} (h : m.get? name = some t)
    (rest : List String) (listed : List TypeDecl) :
    m.closeUnder (name :: rest) listed
      = if isListed listed t.name then m.closeUnder rest listed
        else m.closeUnder (t.interfaces ++ rest) (listed ++ [t]) := by
  rw [closeUnder]
  split
  · next hnone => simp [h] at hnone
  · next t' ht =>
    rw [h] at ht
    cases ht
    split <;> rfl

/-- The class chain ends at the root type and at a name that leads to no type. -/
theorem climb_of_end {name : String} (h : name = rootType ∨ m.get? name = none)
    (listed : List TypeDecl) : m.climb name listed = listed := by
  rw [climb]
  split
  · rfl
  · next hroot =>
    have hnone := h.resolve_left hroot
    split
    · rfl
    · next t ht => simp [hnone] at ht

/-- A class that is not listed yet is listed with its interfaces, and its superclass comes
next. -/
theorem climb_of_some {name : String} {t : TypeDecl} (hroot : name ≠ rootType)
    (h : m.get? name = some t) (listed : List TypeDecl) :
    m.climb name listed
      = if isListed listed t.name then listed
        else
          match t.superclass with
          | none => m.closeUnder t.interfaces (listed ++ [t])
          | some above => m.climb above (m.closeUnder t.interfaces (listed ++ [t])) := by
  rw [climb, if_neg hroot]
  split
  · next hnone => simp [h] at hnone
  · next t' ht =>
    rw [h] at ht
    cases ht
    split
    · rfl
    · cases hsuper : t.superclass with
      | none => rfl
      | some above => rfl

namespace Pruned

/-- What is found under a name in one model, is found in the other one without some of its
annotations. -/
theorem found (h : m.Pruned onTypes onProperties n) {name : String} {t : TypeDecl}
    (hget : m.get? name = some t) :
    ∃ u, n.get? name = some u ∧ t.Pruned onTypes onProperties u := by
  have hname := h name
  rw [hget] at hname
  cases hfound : n.get? name with
  | none =>
    rw [hfound] at hname
    cases hname
  | some u =>
    rw [hfound] at hname
    cases hname with
    | some htu => exact ⟨u, rfl, htu⟩

theorem not_found (h : m.Pruned onTypes onProperties n) {name : String}
    (hget : m.get? name = none) : n.get? name = none := by
  have hname := h name
  rw [hget] at hname
  cases hfound : n.get? name with
  | none => rfl
  | some u =>
    rw [hfound] at hname
    cases hname

theorem contains_eq (h : m.Pruned onTypes onProperties n) (name : String) :
    n.contains name = m.contains name := by
  show (n.get? name).isSome = (m.get? name).isSome
  cases hget : m.get? name with
  | none => rw [h.not_found hget]
  | some t =>
    obtain ⟨u, hfound, -⟩ := h.found hget
    rw [hfound]
    rfl

/-- The names lead to the same types. -/
theorem closeUnder (h : m.Pruned onTypes onProperties n) (names : List String)
    {listed listed' : List TypeDecl} (hlisted : ListedAlike onTypes onProperties listed listed') :
    ListedAlike onTypes onProperties (m.closeUnder names listed) (n.closeUnder names listed') := by
  -- Along the walk in the first model. The other one takes the same turns: which names come next
  -- and what is listed already do not depend on annotations.
  fun_induction TypeModel.closeUnder m names listed generalizing listed' with
  | case1 listed =>
    rw [TypeModel.closeUnder]
    exact hlisted
  | case2 name rest listed hget ih =>
    rw [closeUnder_of_none (h.not_found hget)]
    exact ih hlisted
  | case3 name rest listed t hget hl ih =>
    obtain ⟨u, hfound, htu⟩ := h.found hget
    rw [closeUnder_of_some hfound, isListed_eq hlisted, htu.name, if_pos hl]
    exact ih hlisted
  | case4 name rest listed t hget hl ih =>
    obtain ⟨u, hfound, htu⟩ := h.found hget
    rw [closeUnder_of_some hfound, isListed_eq hlisted, htu.name, if_neg hl, htu.interfaces]
    exact ih (List.rel_append hlisted (.cons htu .nil))

theorem climb (h : m.Pruned onTypes onProperties n) (name : String) {listed listed' : List TypeDecl}
    (hlisted : ListedAlike onTypes onProperties listed listed') :
    ListedAlike onTypes onProperties (m.climb name listed) (n.climb name listed') := by
  fun_induction TypeModel.climb m name listed generalizing listed' with
  | case1 listed =>
    rw [climb_of_end (.inl rfl)]
    exact hlisted
  | case2 name listed hroot hget =>
    rw [climb_of_end (.inr (h.not_found hget))]
    exact hlisted
  | case3 name listed hroot t hget hl =>
    obtain ⟨u, hfound, htu⟩ := h.found hget
    rw [climb_of_some hroot hfound, isListed_eq hlisted, htu.name, if_pos hl]
    exact hlisted
  | case4 name listed hroot t hget hl hsuper =>
    obtain ⟨u, hfound, htu⟩ := h.found hget
    rw [climb_of_some hroot hfound, isListed_eq hlisted, htu.name, if_neg hl, htu.superclass,
      hsuper, htu.interfaces]
    exact h.closeUnder _ (List.rel_append hlisted (.cons htu .nil))
  | case5 name listed hroot t hget hl above hsuper ih =>
    obtain ⟨u, hfound, htu⟩ := h.found hget
    rw [climb_of_some hroot hfound, isListed_eq hlisted, htu.name, if_neg hl, htu.superclass,
      hsuper, htu.interfaces]
    exact ih (h.closeUnder _ (List.rel_append hlisted (.cons htu .nil)))

/-- A type has the same supertypes in both models. -/
theorem hierarchy (h : m.Pruned onTypes onProperties n) (typeName : String) :
    ListedAlike onTypes onProperties (m.hierarchy typeName) (n.hierarchy typeName) :=
  h.climb typeName .nil

/-- A property has the same declarations, without some annotations. -/
theorem declarations (h : m.Pruned onTypes onProperties n) (typeName property : String) :
    List.Forall₂ (fun declared declared' =>
        declared'.1.name = declared.1.name ∧
          PropertyDecl.Pruned onProperties declared.2 declared'.2)
      (m.declarations typeName property) (n.declarations typeName property) := by
  unfold TypeModel.declarations
  generalize m.hierarchy typeName = ts, n.hierarchy typeName = us, h.hierarchy typeName = hlisted
  induction hlisted with
  | nil => exact .nil
  | @cons t u _ _ htu _ ih =>
    have hfound := htu.property? property
    rw [List.filterMap_cons, List.filterMap_cons]
    generalize t.property? property = p, u.property? property = q at hfound
    cases hfound with
    | none => exact ih
    | some hpq => exact .cons ⟨htu.name, hpq⟩ ih

/-- The annotations of a type and its supertypes, without some of them. -/
theorem classAnnotations (h : m.Pruned onTypes onProperties n) (typeName : String) :
    PrunedList onTypes (m.classAnnotations typeName) (n.classAnnotations typeName) :=
  PrunedList.flatMap (h.hierarchy typeName) fun _ _ htu => htu.annotations

/-- The annotations that count for the controllers of a property, without some of them. -/
theorem presentAnnotations (h : m.Pruned onTypes onProperties n) (typeName property : String) :
    PrunedList onProperties
      ((m.declarations typeName property).flatMap fun declared => declared.2.presentAnnotations)
      ((n.declarations typeName property).flatMap fun declared => declared.2.presentAnnotations) :=
  PrunedList.flatMap (h.declarations typeName property) fun _ _ hpq => hpq.2.presentAnnotations

/-- The first accessor of a property is the same. -/
theorem readableAccessor?_eq (h : m.Pruned onTypes onProperties n) (typeName property : String) :
    n.readableAccessor? typeName property = m.readableAccessor? typeName property := by
  unfold TypeModel.readableAccessor?
  generalize m.declarations typeName property = ds, n.declarations typeName property = ds',
    h.declarations typeName property = hdeclarations
  induction hdeclarations with
  | nil => rfl
  | cons hpq _ ih => rw [List.findSome?_cons, List.findSome?_cons, hpq.2.accessor, ih]

/-- A type is replaced in both models. -/
theorem register (h : m.Pruned onTypes onProperties n) {t u : TypeDecl}
    (htu : t.Pruned onTypes onProperties u) :
    (m.register t).Pruned onTypes onProperties (n.register u) := by
  intro name
  rw [TypeModel.register, TypeModel.register, TypeModel.get?, TypeModel.get?, Dict.get?_insert,
    Dict.get?_insert, htu.name]
  split
  · exact .some htu
  · exact h name

/-- Models of the same types, without some of their annotations. -/
theorem ofTypes {ts us : List TypeDecl} (h : ListedAlike onTypes onProperties ts us) :
    (TypeModel.ofTypes ts).Pruned onTypes onProperties (TypeModel.ofTypes us) := by
  have hall : ∀ m n : TypeModel, m.Pruned onTypes onProperties n →
      (ts.foldl TypeModel.register m).Pruned onTypes onProperties
        (us.foldl TypeModel.register n) := by
    induction h with
    | nil => exact fun _ _ hmn => hmn
    | cons htu _ ih => exact fun _ _ hmn => ih _ _ (hmn.register htu)
  exact hall _ _ fun _ => .none

/-! ### What does not show -/

/-- Paths lead to the same objects. -/
theorem follow_eq (h : m.Pruned onTypes onProperties n) (bean : Bean) (path : List String) :
    ModelTargets.follow n bean path = ModelTargets.follow m bean path := by
  induction path generalizing bean with
  | nil => rfl
  | cons property rest ih => simp only [ModelTargets.follow, h.readableAccessor?_eq, ih]

/-- Controllers that are left out of the annotations of a property have no entries. -/
theorem entries_eq (h : m.Pruned onTypes onProperties n)
    (hproperties : ∀ a, onProperties a → a.isController = true) (typeName property : String)
    (binding : Option String) :
    Extraction.entries n typeName property binding
      = Extraction.entries m typeName property binding := by
  refine flatMap_eq_of_forall₂ (h.declarations typeName property) fun declared declared' hpq => ?_
  have hentry : Extraction.entry property binding declared'.1
      = Extraction.entry property binding declared.1 := by
    funext a
    rw [Extraction.entry, Extraction.entry, hpq.1]
  have hpresent := hpq.2.presentAnnotations.filter_eq (p := fun a => !a.isController)
    fun a ha => by simp [hproperties a ha]
  dsimp only
  rw [hpresent, hentry]

/-- What is known about a property of an object is the same. -/
theorem ofOwner_eq (h : m.Pruned onTypes onProperties n)
    (hproperties : ∀ a, onProperties a → a.isController = true) (d : Details)
    (binding : Option String) (owner : Bean) :
    Extraction.ofOwner n d binding owner = Extraction.ofOwner m d binding owner := by
  rw [Extraction.ofOwner, Extraction.ofOwner, h.contains_eq, h.readableAccessor?_eq,
    h.entries_eq hproperties]

theorem constraintsOf_eq (h : m.Pruned onTypes onProperties n)
    (hproperties : ∀ a, onProperties a → a.asConstraint? = none) (typeName property : String) :
    n.constraintsOf typeName property = m.constraintsOf typeName property :=
  flatMap_eq_of_forall₂ (h.declarations typeName property) fun _ _ hpq =>
    hpq.2.annotations.filterMap_eq hproperties

theorem classConstraints_eq (h : m.Pruned onTypes onProperties n)
    (htypes : ∀ a, onTypes a → a.asConstraint? = none) (typeName : String) :
    n.classConstraints typeName = m.classConstraints typeName :=
  (h.classAnnotations typeName).filterMap_eq htypes

theorem constrainedProperties_eq (h : m.Pruned onTypes onProperties n)
    (hproperties : ∀ a, onProperties a → a.asConstraint? = none) (typeName : String) :
    n.constrainedProperties typeName = m.constrainedProperties typeName := by
  have hall : List.Forall₂ (PropertyDecl.Pruned onProperties)
      ((m.hierarchy typeName).flatMap (·.properties))
      ((n.hierarchy typeName).flatMap (·.properties)) :=
    List.rel_flatMap (h.hierarchy typeName) fun _ _ htu => htu.properties
  -- The names are collected into a list, so this is about any that are in it already.
  unfold TypeModel.constrainedProperties
  generalize (m.hierarchy typeName).flatMap (·.properties) = ps,
    (n.hierarchy typeName).flatMap (·.properties) = qs, ([] : List String) = names at hall
  induction hall generalizing names with
  | nil => rfl
  | cons hpq _ ih =>
    have hany := hpq.annotations.any_eq (p := Annotation.isConstraint) fun a ha => by
      simp [hproperties a ha, Annotation.isConstraint]
    rw [List.filter_cons, List.filter_cons, hany]
    split
    · rw [List.foldl_cons, List.foldl_cons, hpq.name]
      exact ih _
    · exact ih _

/-- The constraint engine does not see annotations that are no constraints. -/
theorem ofTypes_eq (h : m.Pruned onTypes onProperties n)
    (htypes : ∀ a, onTypes a → a.asConstraint? = none)
    (hproperties : ∀ a, onProperties a → a.asConstraint? = none) :
    ConstraintEngine.ofTypes n = ConstraintEngine.ofTypes m := by
  have hconstraints : n.constraintsOf = m.constraintsOf := by
    funext typeName property
    exact h.constraintsOf_eq hproperties typeName property
  have hobjects : n.objectViolations = m.objectViolations := by
    funext bean group
    rw [objectViolations, objectViolations, hconstraints, h.classConstraints_eq htypes,
      h.constrainedProperties_eq hproperties]
  rw [ConstraintEngine.ofTypes, ConstraintEngine.ofTypes, hconstraints, hobjects]

/-- No controllers are missed that are for the view and permitted, if none of these is left
out. -/
theorem controllers_eq (h : m.Pruned onTypes onProperties n) {view : String}
    {permitted : GroupController → Bool}
    (htypes : ∀ a, onTypes a → ∀ c, a.asController? = some c →
      c.matchesView view = true → permitted c = false)
    (hproperties : ∀ a, onProperties a → ∀ c, a.asController? = some c →
      c.matchesView view = true → permitted c = false) (l : Groups.Location) :
    (l.controllers n view).filter permitted = (l.controllers m view).filter permitted := by
  have hfound : ∀ {idle : Annotation → Prop} {as bs : List Annotation}, PrunedList idle as bs →
      (∀ a, idle a → ∀ c, a.asController? = some c →
        c.matchesView view = true → permitted c = false) →
      ((bs.filterMap Annotation.asController?).filter (·.matchesView view)).filter permitted
        = ((as.filterMap Annotation.asController?).filter (·.matchesView view)).filter
            permitted := by
    intro idle as bs hpruned hidle
    -- Search and filters are one search, to which an idle annotation does not contribute.
    simp only [List.filter_filterMap]
    refine hpruned.filterMap_eq fun a ha => ?_
    cases hcontroller : a.asController? with
    | none => rfl
    | some c =>
      have hc := hidle a ha c hcontroller
      cases hview : c.matchesView view <;> simp_all
  unfold Groups.Location.controllers
  cases l.property with
  | none => exact hfound (h.classAnnotations l.object.typeName) htypes
  | some property => exact hfound (h.presentAnnotations l.object.typeName property) hproperties

/-- The group sequences of types that are not left out are found. -/
theorem sequence?_eq (h : m.Pruned onTypes onProperties n)
    (htypes : ∀ a, onTypes a → a.asGroupSequence? = none) (typeName : String) :
    Groups.sequence? n typeName = Groups.sequence? m typeName := by
  rw [Groups.sequence?, Groups.sequence?, ← List.head?_filterMap, ← List.head?_filterMap,
    (h.classAnnotations typeName).filterMap_eq htypes]

end Pruned

end TypeModel

end

end FieldGuard
