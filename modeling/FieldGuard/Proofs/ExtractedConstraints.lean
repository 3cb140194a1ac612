import FieldGuard.Extraction.Basic
import FieldGuard.Proofs.Parts
import Mathlib.Data.List.Basic

/-!
# `FieldGuard.Proofs.ExtractedConstraints`: extracted and enforced constraints

Extraction and the constraint engine walk the same declarations of a property, but they do not
read them alike. Extraction takes the annotations of an accessor and of a field only where the
declaration has them; the engine takes all that are written. So extraction finds some of the
enforced constraints, in their order, and all of them just when none is written for a member
that is missing.

* `presentConstraints_sublist`, `presentConstraints_eq_iff`: what one declaration contributes to
  the two lists;
* `Extraction.constraints_entries`: what extraction finds along a hierarchy;
* `Extraction.extract_enforced_iff`: when the two lists of a property are the same.
-/

set_option autoImplicit false

namespace FieldGuard

/-! ### Lists with parts left out -/

section Parts

variable {α β : Type}

theorem flatMap_sublist {f g : α → List β} (h : ∀ x, (f x).Sublist (g x)) (xs : List α) :
    (xs.flatMap f).Sublist (xs.flatMap g) := by
  induction xs with
  | nil => exact List.Sublist.refl _
  | cons x rest ih => simpa using (h x).append ih

/-- If each part is left out or shortened, nothing is only when no part is. -/
theorem flatMap_eq_flatMap_iff_of_sublist {f g : α → List β} (h : ∀ x, (f x).Sublist (g x))
    (xs : List α) : xs.flatMap f = xs.flatMap g ↔ ∀ x ∈ xs, f x = g x :=
  flatMap_eq_flatMap_iff_of_length_le fun x _ => (h x).length_le

end Parts

/-! ### One declaration -/

/-- The constraints among annotations. -/
def constraintsAmong (annotations : List Annotation) : List Constraint :=
  annotations.filterMap Annotation.asConstraint?

theorem constraintsAmong_append (xs ys : List Annotation) :
    constraintsAmong (xs ++ ys) = constraintsAmong xs ++ constraintsAmong ys :=
  List.filterMap_append

/-- Leaving group controllers out leaves all constraints in. -/
theorem constraintsAmong_filter (annotations : List Annotation) :
    constraintsAmong (annotations.filter fun a => !a.isController)
      = constraintsAmong annotations := by
  rw [constraintsAmong, List.filterMap_filter]
  refine List.filterMap_congr fun a _ => ?_
  cases a <;> rfl

namespace PropertyDecl

/-- What is written for a member, if the declaration has it. -/
def ifPresent (present : Bool) (written : List Annotation) : List Annotation :=
  if present then written else []

theorem presentAnnotations_eq (p : PropertyDecl) :
    p.presentAnnotations = ifPresent p.accessor.isSome p.accessorAnnotations
      ++ ifPresent p.hasField p.fieldAnnotations :=
  rfl

theorem constraintsAmong_ifPresent_sublist (present : Bool) (written : List Annotation) :
    (constraintsAmong (ifPresent present written)).Sublist (constraintsAmong written) := by
  cases present with
  | false => exact List.nil_sublist _
  | true => exact List.Sublist.refl _

theorem constraintsAmong_ifPresent_eq_iff (present : Bool) (written : List Annotation) :
    constraintsAmong (ifPresent present written) = constraintsAmong written ↔
      (present = false → constraintsAmong written = []) := by
  cases present with
  | false => simp [ifPresent, constraintsAmong, eq_comm]
  | true => simp [ifPresent]

/-- No constraint is written for an accessor or a field that the declaration lacks. -/
structure ConstrainsMembers (p : PropertyDecl) : Prop where
  accessor : p.accessor.isSome = false → constraintsAmong p.accessorAnnotations = []
  field : p.hasField = false → constraintsAmong p.fieldAnnotations = []

theorem presentConstraints_sublist (p : PropertyDecl) :
    (constraintsAmong p.presentAnnotations).Sublist (constraintsAmong p.annotations) := by
  rw [presentAnnotations_eq, annotations, constraintsAmong_append, constraintsAmong_append]
  exact (constraintsAmong_ifPresent_sublist _ _).append (constraintsAmong_ifPresent_sublist _ _)

theorem presentConstraints_eq_iff (p : PropertyDecl) :
    constraintsAmong p.presentAnnotations = constraintsAmong p.annotations ↔
      p.ConstrainsMembers := by
  rw [presentAnnotations_eq, annotations, constraintsAmong_append, constraintsAmong_append,
    append_eq_append_iff_of_length_le (constraintsAmong_ifPresent_sublist _ _).length_le
      (constraintsAmong_ifPresent_sublist _ _).length_le,
    constraintsAmong_ifPresent_eq_iff, constraintsAmong_ifPresent_eq_iff]
  exact ⟨fun h => ⟨h.1, h.2⟩, fun h => ⟨h.accessor, h.field⟩⟩

end PropertyDecl

/-! ### Along the hierarchy -/

/-- A property can be read only of a type that the model has. -/
theorem TypeModel.contains_of_readable {m : TypeModel} {typeName property : String}
    (h : (m.readableAccessor? typeName property).isSome = true) : m.contains typeName = true := by
  cases hget : m.get? typeName with
  | some t => simp [contains, Dict.contains, show m.types.get? typeName = some t from hget]
  | none =>
    -- A name without a type has no hierarchy, so no declaration could have the accessor.
    have hnone : m.hierarchy typeName = [] := by
      rw [hierarchy, climb]
      split
      · rfl
      · split
        · rfl
        · next t ht => simp [hget] at ht
    simp [readableAccessor?, declarations, hnone] at h

/-- The constraints among what is known about a property. -/
def PropertyInfo.constraints (info : PropertyInfo) : List Constraint :=
  constraintsAmong (info.entries.map Entry.annotation)

namespace Extraction

theorem annotation_entry (property : String) (binding : Option String) (t : TypeDecl)
    (a : Annotation) : Entry.annotation (entry property binding t a) = a := by
  cases binding <;> rfl

/-- Extraction finds the constraints of all accessors and fields that the declarations have. -/
theorem constraints_entries (m : TypeModel) (typeName property : String)
    (binding : Option String) :
    constraintsAmong ((entries m typeName property binding).map Entry.annotation)
      = (m.declarations typeName property).flatMap fun declared =>
          constraintsAmong declared.2.presentAnnotations := by
  rw [entries, List.map_flatMap, constraintsAmong, List.filterMap_flatMap]
  congr 1
  funext declared
  rw [List.map_map]
  have hsame : Entry.annotation ∘ entry property binding declared.1 = id :=
    funext fun a => annotation_entry property binding declared.1 a
  rw [hsame, List.map_id]
  exact constraintsAmong_filter _

/-- The standard extractor and the constraint engine for the types of an environment. Whatever
a property is meant by, if it can be read of its owner then extraction succeeds. It finds
some of the constraints that the engine enforces for the property, in their order; it finds
all of them just when no declaration of the property in the hierarchy of the owner carries a
constraint on an accessor or a field that it lacks. -/
theorem extract_enforced_iff {env : Environment} {r : Request} {target : Target} {d : Details}
    {binding : Option String} {owner : Bean} (hlocate : locate env r.page target = .ok (d, binding))
    (hbase : d.base = some owner)
    (hreadable : (env.types.readableAccessor? owner.typeName d.property).isSome = true) :
    ∃ info, Extractor.standard.extract env r target = .ok info ∧
      let enforced := (ConstraintEngine.ofTypes env.types).constraintsOf owner.typeName d.property
      info.constraints.Sublist enforced ∧
      (info.constraints = enforced ↔
        ∀ declared ∈ env.types.declarations owner.typeName d.property,
          declared.2.ConstrainsMembers) := by
  have hcontains := TypeModel.contains_of_readable hreadable
  have hread : (env.types.readableAccessor? owner.typeName d.property).isNone = false := by
    simpa using hreadable
  have hextract : Extractor.standard.extract env r target
      = .ok (PropertyInfo.ofEntries d (entries env.types owner.typeName d.property binding)) := by
    show extract env r.page target = _
    simp [extract, hlocate, hbase, ofOwner, hcontains, hread, bind, Except.bind]
  refine ⟨_, hextract, ?_⟩
  intro enforced
  have hfound := constraints_entries env.types owner.typeName d.property binding
  have henforced : enforced = (env.types.declarations owner.typeName d.property).flatMap
      fun declared => constraintsAmong declared.2.annotations := rfl
  rw [PropertyInfo.constraints, PropertyInfo.ofEntries, hfound, henforced]
  have hparts := fun declared : TypeDecl × PropertyDecl => declared.2.presentConstraints_sublist
  refine ⟨flatMap_sublist hparts _, (flatMap_eq_flatMap_iff_of_sublist hparts _).trans ?_⟩
  exact forall₂_congr fun declared _ => declared.2.presentConstraints_eq_iff

/-- An environment for orders: the code must not be null. The constraint is written for a field. -/
def orderEnv (hasField : Bool) : Environment where
  types := .ofTypes
    [{ name := "Order", properties :=
        [{ name := "code", hasField, fieldAnnotations := [.constraint { rule := .notNull }] }] }]

/-- A request for a page with one order. -/
def orderPage : Request :=
  .new "/edit.xhtml" (Dict.ofList [("order", .object (Record.ofType "Order"))])

/-- With the field, extraction finds what the engine enforces. -/
theorem extract_enforced_iff_code :
    let env := orderEnv true
    let d : Details := ⟨"order.code", some (Record.ofType "Order"), "code"⟩
    ∃ info, Extractor.standard.extract env orderPage (.details d) = .ok info ∧
      info.constraints = (ConstraintEngine.ofTypes env.types).constraintsOf "Order" "code" := by
  intro env d
  have hmembers : ((env.types.declarations "Order" "code").all fun declared =>
      declared.2.accessor.isSome && declared.2.hasField) = true := by decide +kernel
  have hlocate : locate env orderPage.page (.details d) = .ok (d, none) := rfl
  have hbase : d.base = some (Record.ofType "Order") := rfl
  obtain ⟨info, hextract, -, hiff⟩ := extract_enforced_iff hlocate hbase (by decide +kernel)
  refine ⟨info, hextract, hiff.2 fun declared hdeclared => ?_⟩
  have hboth := Bool.and_eq_true_iff.1 (List.all_eq_true.1 hmembers declared hdeclared)
  exact ⟨fun h => by simp [hboth.1] at h, fun h => by simp [hboth.2] at h⟩

/-- Without the field, extraction misses a constraint that the engine enforces. -/
theorem extract_misses_code :
    let env := orderEnv false
    let engine := ConstraintEngine.ofTypes env.types
    (env.types.readableAccessor? "Order" "code").isSome = true ∧
    (∃ info,
      Extractor.standard.extract env orderPage (.binding "#\x7border.code\x7d") = .ok info ∧
      info.details?.bind Details.baseType? = some "Order" ∧
      info.details?.map (·.property) = some "code" ∧
      info.constraints = []) ∧
    (engine.constraintsOf "Order" "code").map (·.rule) = [.notNull] ∧
    (engine.validateValue "Order" "code" .null [defaultGroup]).map (·.key)
      = [Rule.notNull.key] := by
  intro env engine
  refine ⟨by decide +kernel, ?_, by decide +kernel, by decide +kernel⟩
  have hfound : (extract env orderPage.page (.binding "#\x7border.code\x7d")).toOption.map (fun info =>
      (info.details?.bind Details.baseType?, info.details?.map (·.property),
        info.constraints.map (·.rule)))
      = some (some "Order", some "code", []) := by decide +kernel
  cases hextract : extract env orderPage.page (.binding "#\x7border.code\x7d") with
  | error fault => simp [hextract, Except.toOption] at hfound
  | ok info =>
    simp only [hextract, Except.toOption, Option.map_some, Option.some.injEq, Prod.mk.injEq,
      List.map_eq_nil_iff] at hfound
    exact ⟨info, hextract, hfound⟩

end Extraction

end FieldGuard
