import FieldGuard.Constraints.Engine
import FieldGuard.Proofs.Groups
import FieldGuard.Proofs.Hierarchy
import FieldGuard.Proofs.SameContent
import Mathlib.Data.List.Pairwise

/-!
# `FieldGuard.Proofs.ObjectValidation`: an object is validated as its properties are

An object is validated group by group as a whole, a value group by group for its property alone.
So the two may stop at different groups. They agree all the same on what is valid, and an object
with violations has those of one group, which are for every property the violations of its value
in that group.

* `firstFound_split`: where validation stops, and that it finds there what it yields;
* `TypeModel.objectViolations_eq_nil_iff`: what it means that nothing is found in one group;
* `TypeModel.filter_objectViolations`: what is found for one property;
* `TypeModel.validate_agrees`: the comparison as a whole.

Whether values are equal is tested on neighbours only. That any two of them are equal then takes
that equality is an equivalence, which it is as long as no value has a NaN.
-/

set_option autoImplicit false

namespace FieldGuard

/-- What is found first is found for an item before which no item has a result. -/
theorem firstFound_split {α β : Type} {find : α → List β} {items : List α}
    (h : firstFound find items ≠ []) :
    ∃ before a after, items = before ++ a :: after ∧ (∀ b ∈ before, find b = []) ∧
      find a ≠ [] ∧ firstFound find items = find a := by
  induction items with
  | nil => exact absurd rfl h
  | cons a rest ih =>
    rw [firstFound] at h ⊢
    cases hfind : find a with
    | nil =>
      rw [hfind] at h
      obtain ⟨before, b, after, hrest, hbefore, hb, heq⟩ := ih h
      refine ⟨a :: before, b, after, by rw [hrest, List.cons_append], ?_, hb, heq⟩
      exact List.forall_mem_cons.2 ⟨hfind, hbefore⟩
    | cons first more =>
      exact ⟨[], a, rest, rfl, by simp, by simp [hfind], by simp [hfind]⟩

theorem firstFound_singleton {α β : Type} (find : α → List β) (a : α) :
    firstFound find [a] = find a := by
  rw [firstFound]
  cases find a <;> rfl

theorem nodup_foldl_addUnique {items acc : List String} (h : acc.Nodup) :
    (items.foldl addUnique acc).Nodup := by
  induction items generalizing acc with
  | nil => exact h
  | cons a rest ih => exact ih (nodup_addUnique a h)

/-- Among distinct names, what one of them stands for is found once. -/
theorem flatMap_of_nodup {β : Type} {names : List String} {name : String} (h : names.Nodup)
    {f : String → List β} (hrest : name ∉ names → f name = []) :
    (names.flatMap fun other => if other = name then f other else []) = f name := by
  induction names with
  | nil => exact (hrest List.not_mem_nil).symm
  | cons first rest ih =>
    obtain ⟨hfirst, hnodup⟩ := List.nodup_cons.1 h
    rw [List.flatMap_cons]
    by_cases heq : first = name
    · subst heq
      -- It does not come up again.
      have hnone : (rest.flatMap fun other => if other = first then f other else []) = [] := by
        refine List.flatMap_eq_nil_iff.2 fun other hother => if_neg ?_
        exact fun heq => hfirst (heq ▸ hother)
      rw [if_pos rfl, hnone, List.append_nil]
    · rw [if_neg heq, List.nil_append]
      exact ih hnodup fun hmem => hrest (by simp [hmem, Ne.symm heq])

/-! ### Equal properties -/

/-- Of properties that the rule demands to be equal, an object holds any two as equal. -/
def Rule.EqualIn (rule : Rule) (bean : Bean) : Prop :=
  ∀ properties ∈ rule.equalProperties?, ∀ p ∈ properties, ∀ q ∈ properties,
    (bean.valueOf p).same (bean.valueOf q) = true

namespace Constraints

theorem allSame_iff_isChain {values : List Value} :
    allSame values = true ↔ values.IsChain (fun v w => v.same w = true) := by
  fun_induction allSame values with
  | case1 a b rest ih => simp [ih]
  | case2 values h =>
    match values with
    | [] => simp
    | [a] => simp
    | a :: b :: rest => exact absurd rfl (h a b rest)

/-- Values without NaN are the same one by one just when any two of them are. -/
theorem allSame_iff {values : List Value} (h : ∀ v ∈ values, v.NaNFree) :
    allSame values = true ↔ ∀ v ∈ values, ∀ w ∈ values, v.same w = true := by
  have : Trans (fun v w : Value => v.same w = true) (fun v w => v.same w = true)
      (fun v w => v.same w = true) := ⟨Value.same_trans⟩
  have : Std.Symm fun v w : Value => v.same w = true := ⟨fun _ _ => Value.same_symm⟩
  rw [allSame_iff_isChain, List.isChain_iff_pairwise]
  constructor
  · intro hpairs
    exact hpairs.forall_of_forall fun v hv => Value.same_self (h v hv)
  · intro hall
    exact List.pairwise_of_forall_mem_list hall

/-- An object without NaN violates a constraint on its type unless any two of the properties that
should be equal are. -/
theorem objectViolation?_eq_none_iff {bean : Bean} (h : bean.NaNFree) {c : Constraint} :
    objectViolation? bean c = none ↔ c.rule.EqualIn bean := by
  rw [objectViolation?, Rule.EqualIn]
  cases c.rule.equalProperties? with
  | none => simp
  | some properties =>
    have hfree : ∀ v ∈ properties.map bean.valueOf, v.NaNFree := by
      intro v hv
      obtain ⟨p, -, rfl⟩ := List.mem_map.1 hv
      exact h.valueOf p
    have hsame := allSame_iff hfree
    simp only [List.forall_mem_map] at hsame
    simp [hsame]

theorem path_objectViolation? {bean : Bean} {c : Constraint} {v : Violation}
    (h : objectViolation? bean c = some v) : v.path = "" := by
  rw [objectViolation?] at h
  split at h
  · cases h
  · dsimp only at h
    split at h
    · cases h
    · cases h
      rfl

theorem mem_valueViolations {typeName property : String} {constraints : List Constraint}
    {value : Value} {group : String} {v : Violation} :
    v ∈ valueViolations typeName property constraints value group ↔
      ∃ c ∈ constraints, c.appliesTo group = true ∧
        ∃ b ∈ c.breaches value, Violation.ofBreach typeName property value b = v := by
  simp only [valueViolations, List.mem_map, List.mem_flatMap, List.mem_filter]
  constructor
  · rintro ⟨b, ⟨c, ⟨hc, hgroup⟩, hb⟩, hv⟩
    exact ⟨c, hc, hgroup, b, hb, hv⟩
  · rintro ⟨c, hc, hgroup, b, hb, hv⟩
    exact ⟨b, ⟨c, ⟨hc, hgroup⟩, hb⟩, hv⟩

/-- Every violation of a value is one of its property. -/
theorem filter_valueViolations (typeName property other : String) (constraints : List Constraint)
    (value : Value) (group : String) :
    (valueViolations typeName other constraints value group).filter (fun v => v.path == property)
      = if other = property then valueViolations typeName other constraints value group else [] := by
  have hpath : ∀ v ∈ valueViolations typeName other constraints value group, v.path = other := by
    intro v hv
    obtain ⟨c, -, -, b, -, rfl⟩ := mem_valueViolations.1 hv
    rfl
  split
  · next heq => exact List.filter_eq_self.2 fun v hv => by simp [hpath v hv, heq]
  · next hne => exact List.filter_eq_nil_iff.2 fun v hv => by simp [hpath v hv, hne]

end Constraints

namespace TypeModel

/-! ### Constrained properties -/

theorem constrainedProperties_eq (m : TypeModel) (typeName : String) :
    m.constrainedProperties typeName
      = ((((m.hierarchy typeName).flatMap (·.properties)).filter fun p =>
          p.annotations.any Annotation.isConstraint).map (·.name)).foldl addUnique [] :=
  (List.foldl_map ..).symm

theorem nodup_constrainedProperties (m : TypeModel) (typeName : String) :
    (m.constrainedProperties typeName).Nodup := by
  rw [constrainedProperties_eq]
  exact nodup_foldl_addUnique List.nodup_nil

/-- Each type of the hierarchy declares a property once. -/
theorem nodup_declarations (m : TypeModel) (typeName property : String) :
    ((m.declarations typeName property).map (·.1.name)).Nodup := by
  have hsub : ((m.declarations typeName property).map (·.1.name)).Sublist
      ((m.hierarchy typeName).map (·.name)) := by
    rw [declarations]
    induction m.hierarchy typeName with
    | nil => exact List.Sublist.refl _
    | cons t rest ih =>
      rw [List.filterMap_cons]
      cases t.property? property with
      | none => exact ih.cons _
      | some p => exact ih.cons_cons _
  exact hsub.nodup (m.nodup_hierarchy typeName)

/-- A property that is not among the constrained ones has no constraints. -/
theorem constraintsOf_eq_nil {m : TypeModel} {typeName property : String}
    (h : property ∉ m.constrainedProperties typeName) : m.constraintsOf typeName property = [] := by
  refine List.flatMap_eq_nil_iff.2 fun declared hdeclared => ?_
  obtain ⟨t, ht, hp⟩ := List.mem_filterMap.1 hdeclared
  obtain ⟨p, hfound, rfl⟩ := Option.map_eq_some_iff.1 hp
  refine List.filterMap_eq_nil_iff.2 fun a ha => ?_
  -- A constraint on the declaration would put the property on the list.
  by_contra hconstraint
  refine h ?_
  rw [constrainedProperties_eq, mem_foldl_addUnique]
  refine .inr (List.mem_map.2 ⟨p, List.mem_filter.2 ⟨?_, ?_⟩, ?_⟩)
  · exact List.mem_flatMap.2 ⟨t, ht, List.mem_of_find?_eq_some hfound⟩
  · exact List.any_eq_true.2 ⟨a, ha, Option.isSome_iff_ne_none.2 hconstraint⟩
  · simpa using List.find?_some hfound

/-! ### What an object violates in one group -/

variable {m : TypeModel} {bean : Bean} {group : String}

/-- A violation by an object of a constraint in the group: of one on a property, by its value, or
of one on the type. -/
inductive IsViolation (m : TypeModel) (bean : Bean) (group : String) : Violation → Prop
  | ofProperty {property : String} {c : Constraint} {b : Breach}
      (hc : c ∈ m.constraintsOf bean.typeName property) (hgroup : c.appliesTo group = true)
      (hb : b ∈ c.breaches (bean.valueOf property)) :
      IsViolation m bean group
        (Violation.ofBreach bean.typeName property (bean.valueOf property) b)
  | ofType {c : Constraint} {v : Violation} (hc : c ∈ m.classConstraints bean.typeName)
      (hgroup : c.appliesTo group = true) (hv : Constraints.objectViolation? bean c = some v) :
      IsViolation m bean group v

/-- All violations in the group are found, and no others. -/
theorem mem_objectViolations {v : Violation} :
    v ∈ m.objectViolations bean group ↔ m.IsViolation bean group v := by
  rw [objectViolations, List.mem_append, List.mem_flatMap, List.mem_filterMap]
  constructor
  · rintro (⟨p, -, hv⟩ | ⟨c, hc, hv⟩)
    · obtain ⟨c, hc, hgroup, b, hb, rfl⟩ := Constraints.mem_valueViolations.1 hv
      exact .ofProperty hc hgroup hb
    · obtain ⟨hc, hgroup⟩ := List.mem_filter.1 hc
      exact .ofType hc hgroup hv
  · intro h
    cases h with
    | @ofProperty p c b hc hgroup hb =>
      -- A property with a constraint is among those that are gone through.
      refine .inl ⟨p, ?_, Constraints.mem_valueViolations.2 ⟨c, hc, hgroup, b, hb, rfl⟩⟩
      by_contra hunlisted
      rw [constraintsOf_eq_nil hunlisted] at hc
      cases hc
    | @ofType c v hc hgroup hv => exact .inr ⟨c, List.mem_filter.2 ⟨hc, hgroup⟩, hv⟩

/-- What is found for one property is what its value violates. -/
theorem filter_objectViolations (m : TypeModel) (bean : Bean) (group : String) {property : String}
    (h : property ≠ "") :
    (m.objectViolations bean group).filter (fun v => v.path == property)
      = Constraints.valueViolations bean.typeName property
          (m.constraintsOf bean.typeName property) (bean.valueOf property) group := by
  -- Violations of constraints on the type have no path.
  have htype : (((m.classConstraints bean.typeName).filter fun c => c.appliesTo group).filterMap
      (Constraints.objectViolation? bean)).filter (fun v => v.path == property) = [] := by
    refine List.filter_eq_nil_iff.2 fun v hv => ?_
    obtain ⟨c, -, hv⟩ := List.mem_filterMap.1 hv
    simp [Constraints.path_objectViolation? hv, h.symm]
  rw [objectViolations, List.filter_append, htype, List.append_nil, List.filter_flatMap]
  simp only [Constraints.filter_valueViolations]
  refine flatMap_of_nodup (m.nodup_constrainedProperties _) (f := fun other =>
    Constraints.valueViolations bean.typeName other (m.constraintsOf bean.typeName other)
      (bean.valueOf other) group) fun hunlisted => ?_
  rw [constraintsOf_eq_nil hunlisted]
  rfl

/-- Validating a value in one group yields what it violates there. -/
theorem validateValue_singleton (m : TypeModel) (typeName property : String) (value : Value)
    (group : String) :
    (ConstraintEngine.ofTypes m).validateValue typeName property value [group]
      = Constraints.valueViolations typeName property (m.constraintsOf typeName property) value
          group :=
  firstFound_singleton _ group

/-- What a value violates, declaration by declaration. -/
theorem valueViolations_eq_flatMap_declarations (m : TypeModel) (typeName property : String)
    (value : Value) (group : String) :
    Constraints.valueViolations typeName property (m.constraintsOf typeName property) value group
      = (m.declarations typeName property).flatMap fun declared =>
          Constraints.valueViolations typeName property
            (declared.2.annotations.filterMap Annotation.asConstraint?) value group := by
  simp only [Constraints.valueViolations, constraintsOf, List.filter_flatMap, List.flatMap_assoc,
    List.map_flatMap]

/-- An object with nothing to report: no property has a violation by its value, and properties
are equal where that is demanded. -/
structure Passes (m : TypeModel) (bean : Bean) (groups : List String) : Prop where
  values : ∀ property, (ConstraintEngine.ofTypes m).validateValue bean.typeName property
    (bean.valueOf property) groups = []
  equal : ∀ c ∈ m.classConstraints bean.typeName, c.appliesToAny groups = true →
    c.rule.EqualIn bean

/-- What it takes to pass in one group. -/
theorem passes_singleton :
    m.Passes bean [group] ↔
      (∀ property, Constraints.valueViolations bean.typeName property
        (m.constraintsOf bean.typeName property) (bean.valueOf property) group = []) ∧
      ∀ c ∈ m.classConstraints bean.typeName, c.appliesTo group = true → c.rule.EqualIn bean := by
  have happlies : ∀ c : Constraint, c.appliesToAny [group] = c.appliesTo group := by
    simp [Constraint.appliesToAny]
  simp only [← validateValue_singleton, ← happlies]
  exact ⟨fun h => ⟨h.values, h.equal⟩, fun h => ⟨h.1, h.2⟩⟩

/-- An object passes in groups if it does in each of them. -/
theorem passes_iff {groups : List String} :
    m.Passes bean groups ↔ ∀ group ∈ groups, m.Passes bean [group] := by
  simp only [passes_singleton]
  constructor
  · intro h group hgroup
    refine ⟨fun p => firstFound_eq_nil_iff.1 (h.values p) group hgroup, fun c hc happlies => ?_⟩
    exact h.equal c hc (List.any_eq_true.2 ⟨group, hgroup, happlies⟩)
  · intro h
    refine ⟨fun p => firstFound_eq_nil_iff.2 fun group hgroup => (h group hgroup).1 p, ?_⟩
    intro c hc happlies
    obtain ⟨group, hgroup, hc'⟩ := List.any_eq_true.1 happlies
    exact (h group hgroup).2 c hc hc'

/-- Nothing is found in a group just when the object passes in it. -/
theorem objectViolations_eq_nil_iff (h : bean.NaNFree) :
    m.objectViolations bean group = [] ↔ m.Passes bean [group] := by
  rw [objectViolations, List.append_eq_nil_iff, List.flatMap_eq_nil_iff,
    List.filterMap_eq_nil_iff, passes_singleton]
  refine and_congr ⟨fun hlisted p => ?_, fun hall p _ => hall p⟩ ?_
  · by_cases hp : p ∈ m.constrainedProperties bean.typeName
    · exact hlisted p hp
    · rw [constraintsOf_eq_nil hp]
      rfl
  · simp only [List.mem_filter, Constraints.objectViolation?_eq_none_iff h, and_imp]

/-- Validating an object agrees with validating its values. For an object without NaN nothing is
found just when nothing is found for the value of any property and the properties are equal that
should be. Otherwise the violations are those in the first group in which the object does not
pass, all of them, and for every property they are what validating its value in that group yields:
what the value violates of each declaration of the property, each type declaring it once. -/
theorem validate_agrees (m : TypeModel) {bean : Bean} (h : bean.NaNFree) (groups : List String) :
    ((ConstraintEngine.ofTypes m).validate bean groups = [] ↔ m.Passes bean groups) ∧
    ((ConstraintEngine.ofTypes m).validate bean groups ≠ [] →
      ∃ before group after, groups = before ++ group :: after ∧
        (∀ earlier ∈ before, m.Passes bean [earlier]) ∧ ¬ m.Passes bean [group] ∧
        (∀ v, v ∈ (ConstraintEngine.ofTypes m).validate bean groups ↔
          m.IsViolation bean group v) ∧
        ∀ property ≠ "",
          ((ConstraintEngine.ofTypes m).validate bean groups).filter (fun v => v.path == property)
            = (ConstraintEngine.ofTypes m).validateValue bean.typeName property
                (bean.valueOf property) [group]) ∧
    ∀ typeName property value group,
      (ConstraintEngine.ofTypes m).validateValue typeName property value [group]
        = (m.declarations typeName property).flatMap (fun declared =>
            Constraints.valueViolations typeName property
              (declared.2.annotations.filterMap Annotation.asConstraint?) value group) ∧
      ((m.declarations typeName property).map (·.1.name)).Nodup := by
  refine ⟨?_, fun hfound => ?_, fun typeName property value group => ⟨?_, ?_⟩⟩
  · rw [passes_iff]
    simp only [← objectViolations_eq_nil_iff h]
    exact firstFound_eq_nil_iff
  · obtain ⟨before, group, after, hgroups, hbefore, hgroup, heq⟩ := firstFound_split hfound
    refine ⟨before, group, after, hgroups, ?_, ?_, ?_, ?_⟩
    · exact fun earlier hearlier => (objectViolations_eq_nil_iff h).1 (hbefore earlier hearlier)
    · exact fun hpasses => hgroup ((objectViolations_eq_nil_iff h).2 hpasses)
    · intro v
      rw [show (ConstraintEngine.ofTypes m).validate bean groups = _ from heq]
      exact mem_objectViolations
    · intro p hp
      rw [show (ConstraintEngine.ofTypes m).validate bean groups = _ from heq,
        filter_objectViolations m bean group hp, validateValue_singleton]
  · rw [validateValue_singleton, valueViolations_eq_flatMap_declarations]
  · exact m.nodup_declarations typeName property

/-! ### A password that is entered twice -/

/-- The password of an account is required by its supertype. Later on it has at least three
characters, and is the same as the repeated one. -/
def passwordTypes : TypeModel :=
  .ofTypes
    [{ name := "Login", properties :=
        [(PropertyDecl.new "password").onField (.constraint { rule := .notNull })] },
      { name := "Account", superclass := some "Login"
        annotations :=
          [.constraint { rule := .equal ["password", "repeated"], groups := ["Later"] }]
        properties :=
          [(PropertyDecl.new "password").onField
            (.constraint { rule := .size 3 unbounded, groups := ["Later"] })] }]

/-- An account with two passwords. -/
def passwordAccount (password repeated : String) : Bean :=
  ((Record.ofType "Account").put "password" (.text password)).put "repeated" (.text repeated)

/-- The password is there, so that nothing is found at first. Later on it is too short, and not
the same as the repeated one. -/
theorem validate_agrees_password :
    let e := ConstraintEngine.ofTypes passwordTypes
    let bean := passwordAccount "ab" "abc"
    let found := e.validate bean ["Default", "Later"]
    bean.NaNFree ∧ found.map (·.path) = ["password", ""] ∧
    passwordTypes.Passes bean ["Default"] ∧ ¬ passwordTypes.Passes bean ["Default", "Later"] ∧
    ∃ group ∈ ["Default", "Later"], ¬ passwordTypes.Passes bean [group] ∧
      found.filter (fun v => v.path == "password")
        = e.validateValue "Account" "password" (.text "ab") [group] := by
  intro e bean found
  have hfree : bean.NaNFree := ⟨trivial, trivial, trivial⟩
  have hpaths : found.map (·.path) = ["password", ""] := by decide +kernel
  have hfound : found ≠ [] := fun h => by simp [h] at hpaths
  obtain ⟨hfirst, -, -⟩ := validate_agrees passwordTypes hfree ["Default"]
  obtain ⟨hboth, hlater, -⟩ := validate_agrees passwordTypes hfree ["Default", "Later"]
  obtain ⟨before, group, after, hgroups, -, hgroup, -, hfilter⟩ := hlater hfound
  have hnone : e.validate bean ["Default"] = [] := List.isEmpty_iff.1 (by decide +kernel)
  refine ⟨hfree, hpaths, hfirst.1 hnone, fun h => hfound (hboth.2 h), group, ?_, hgroup, ?_⟩
  · simp [hgroups]
  · exact hfilter "password" (by decide)

end TypeModel

end FieldGuard
