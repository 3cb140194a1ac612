import FieldGuard.TypeModel.Basic

/-!
# `FieldGuard.TypeModel.Hierarchy`: a type and its supertypes

The hierarchy of a type follows the superclass links up to the root type, which
is left out. Each class comes before its interfaces, and these come depth first
before the next class. No type is listed twice, and a name that leads to no type
ends its branch. Cycles are harmless: every step either lists a type that was
not listed before or has one name fewer to visit.

* `pending`: how much of the model is not listed yet, the measure of the walk;
* `closeUnder`: a worklist of names, listed with everything their interfaces lead to;
* `hierarchy`: the whole walk; look-ups along it follow.
-/

set_option autoImplicit false

namespace FieldGuard

/-- The type above all classes. Class chains end before it. -/
def rootType : String := "Object"

namespace TypeModel

/-- Whether a type of this name is listed. -/
def isListed (listed : List TypeDecl) (name : String) : Bool :=
  listed.any fun t => t.name == name

/-- How much types count for: each for itself and for its interface links. -/
def weight : List TypeDecl → Nat
  | [] => 0
  | t :: rest => t.interfaces.length + 1 + weight rest

/-- How much of the model is not listed. -/
def pending (m : TypeModel) (listed : List TypeDecl) : Nat :=
  weight (m.types.values.filter fun t => !isListed listed t.name)

theorem isListed_append (listed more : List TypeDecl) (name : String) :
    isListed (listed ++ more) name = (isListed listed name || isListed more name) := by
  simp [isListed]

theorem mem_values_of_get? {m : TypeModel} {name : String} {t : TypeDecl}
    (h : m.get? name = some t) : t ∈ m.types.values :=
  List.mem_map.2 ⟨(name, t), Keyed.mem_of_find?_eq_some h, rfl⟩

theorem weight_filter_le (p : TypeDecl → Bool) (types : List TypeDecl) :
    weight (types.filter p) ≤ weight types := by
  induction types with
  | nil => exact Nat.le_refl _
  | cons t rest ih =>
    rw [List.filter_cons, weight]
    split
    · rw [weight]
      omega
    · omega

/-- A type that is filtered out counts towards the difference. -/
theorem weight_filter_add_le {p : TypeDecl → Bool} {types : List TypeDecl} {t : TypeDecl}
    (ht : t ∈ types) (hp : p t = false) :
    weight (types.filter p) + (t.interfaces.length + 1) ≤ weight types := by
  induction types with
  | nil => cases ht
  | cons u rest ih =>
    rw [List.filter_cons, weight]
    rcases List.mem_cons.1 ht with rfl | ht
    · have hrest := weight_filter_le p rest
      rw [if_neg (by simp [hp])]
      omega
    · have hrest := ih ht
      split
      · rw [weight]
        omega
      · omega

/-- Types that are listed further on are filtered out further on. -/
theorem filter_isListed_append (types listed more : List TypeDecl) :
    (types.filter fun t => !isListed (listed ++ more) t.name)
      = (types.filter fun t => !isListed listed t.name).filter fun t => !isListed more t.name := by
  rw [List.filter_filter]
  refine List.filter_congr fun t _ => ?_
  rw [isListed_append]
  cases isListed listed t.name <;> cases isListed more t.name <;> rfl

/-- Listing more types leaves no more pending. -/
theorem pending_append_le (m : TypeModel) (listed more : List TypeDecl) :
    m.pending (listed ++ more) ≤ m.pending listed := by
  rw [pending, filter_isListed_append]
  exact weight_filter_le _ _

/-- Listing a type that was not listed leaves less pending, by its interface links and itself. -/
theorem pending_append_lt {m : TypeModel} {listed : List TypeDecl} {t : TypeDecl}
    (hmem : t ∈ m.types.values) (hnew : isListed listed t.name = false) :
    m.pending (listed ++ [t]) + t.interfaces.length < m.pending listed := by
  have hin : t ∈ m.types.values.filter fun u => !isListed listed u.name :=
    List.mem_filter.2 ⟨hmem, by simp [hnew]⟩
  have hweight := weight_filter_add_le (p := fun u => !isListed [t] u.name) hin (by simp [isListed])
  rw [pending, filter_isListed_append, pending]
  omega

/-- Lists the types that the names lead to, each followed by what its interfaces lead to. -/
def closeUnder (m : TypeModel) : List String → List TypeDecl → List TypeDecl
  | [], listed => listed
  | name :: rest, listed =>
    match _h : m.get? name with
    | none => closeUnder m rest listed
    | some t =>
      if _hl : isListed listed t.name = true then closeUnder m rest listed
      else closeUnder m (t.interfaces ++ rest) (listed ++ [t])
termination_by names listed => m.pending listed + names.length
decreasing_by
  · simp
  · simp
  · have hlt := pending_append_lt (mem_values_of_get? _h) (by simpa using _hl)
    simp only [List.length_append, List.length_cons]
    omega

/-- What is listed stays listed, in front. -/
theorem closeUnder_eq_append (m : TypeModel) (names : List String) (listed : List TypeDecl) :
    ∃ more, closeUnder m names listed = listed ++ more := by
  fun_induction closeUnder m names listed with
  | case1 listed => exact ⟨[], by simp⟩
  | case2 listed name rest h ih => exact ih
  | case3 listed name rest t h hl ih => exact ih
  | case4 listed name rest t h hl ih =>
    obtain ⟨more, hmore⟩ := ih
    exact ⟨t :: more, by simp [hmore]⟩

/-- Lists a class with its interfaces, then its superclass in the same way. -/
def climb (m : TypeModel) (name : String) (listed : List TypeDecl) : List TypeDecl :=
  if name = rootType then listed
  else
    match _h : m.get? name with
    | none => listed
    | some t =>
      if _hl : isListed listed t.name = true then listed
      else
        match t.superclass with
        | none => closeUnder m t.interfaces (listed ++ [t])
        | some above => climb m above (closeUnder m t.interfaces (listed ++ [t]))
termination_by m.pending listed
decreasing_by
  obtain ⟨more, hmore⟩ := closeUnder_eq_append m t.interfaces (listed ++ [t])
  have hle := m.pending_append_le (listed ++ [t]) more
  have hlt := pending_append_lt (mem_values_of_get? _h) (by simpa using _hl)
  rw [hmore]
  omega

/-- The type found under a name and its supertypes. -/
def hierarchy (m : TypeModel) (name : String) : List TypeDecl :=
  climb m name []

/-- The declarations of a property along the hierarchy, with the types that declare them. -/
def declarations (m : TypeModel) (typeName property : String) : List (TypeDecl × PropertyDecl) :=
  (m.hierarchy typeName).filterMap fun t => (t.property? property).map fun p => (t, p)

/-- The first declaration of a property along the hierarchy. -/
def findProperty? (m : TypeModel) (typeName property : String) : Option PropertyDecl :=
  (m.declarations typeName property).head?.map (·.2)

/-- The first accessor of a property along the hierarchy. -/
def readableAccessor? (m : TypeModel) (typeName property : String) : Option Accessor :=
  (m.declarations typeName property).findSome? fun declared => declared.2.accessor

/-- The annotations of a type and its supertypes themselves. -/
def classAnnotations (m : TypeModel) (typeName : String) : List Annotation :=
  (m.hierarchy typeName).flatMap (·.annotations)

end TypeModel

end FieldGuard
