import FieldGuard.Json.Basic
import FieldGuard.Value.Basic

/-!
# `FieldGuard.Proofs.SameContent`: equality by content

Values and JSON values are compared by content, and their floating point numbers as numbers. That
is not identity: the two zeros are the same number, two instances may be the same object, and NaN
is not the same as itself. It is transitive all the same, and symmetric; a value is the same as
itself just when no NaN is in it.

Both types hold lists of themselves, so each law is proved along the value and its members
together.

* `Json.same_trans`: transitivity, which the joining of lists without duplicates rests on;
* `Value.same_symm`, `Value.same_trans`, `Value.same_self`: equality of values without NaN is an
  equivalence.
-/

set_option autoImplicit false

namespace FieldGuard

/-! ### Numbers -/

namespace Number

variable {x y z : Float}

theorem isNaN_of_isFinite (h : isFinite x = true) : isNaN x = false := by
  have hfield : exponentField x ≠ 2047 := by simpa [isFinite] using h
  simp [isNaN, hfield]

theorem sameNumber_iff :
    sameNumber x y = true ↔ isNaN x = false ∧ isNaN y = false ∧ orderKey x = orderKey y := by
  simp [sameNumber, and_assoc]

theorem sameNumber_self (h : isNaN x = false) : sameNumber x x = true :=
  sameNumber_iff.2 ⟨h, h, rfl⟩

theorem sameNumber_symm (h : sameNumber x y = true) : sameNumber y x = true := by
  obtain ⟨hx, hy, hkey⟩ := sameNumber_iff.1 h
  exact sameNumber_iff.2 ⟨hy, hx, hkey.symm⟩

theorem sameNumber_trans (hxy : sameNumber x y = true) (hyz : sameNumber y z = true) :
    sameNumber x z = true := by
  obtain ⟨hx, -, hleft⟩ := sameNumber_iff.1 hxy
  obtain ⟨-, hz, hright⟩ := sameNumber_iff.1 hyz
  exact sameNumber_iff.2 ⟨hx, hz, hleft.trans hright⟩

end Number

/-! ### JSON values -/

namespace Json

mutual

theorem same_trans {a b c : Json} (hab : same a b = true) (hbc : same b c = true) :
    same a c = true := by
  cases a with
  | null => cases b <;> first | exact hbc | cases hab
  | bool p =>
    cases b with
    | bool q =>
      rw [show p = q by simpa [same] using hab]
      exact hbc
    | _ => cases hab
  | int m =>
    cases b with
    | int n =>
      rw [show m = n by simpa [same] using hab]
      exact hbc
    | _ => cases hab
  | float x =>
    cases b with
    | float y =>
      cases c with
      | float z => exact Number.sameNumber_trans hab hbc
      | _ => cases hbc
    | _ => cases hab
  | string s =>
    cases b with
    | string t =>
      rw [show s = t by simpa [same] using hab]
      exact hbc
    | _ => cases hab
  | array xs =>
    cases b with
    | array ys =>
      cases c with
      | array zs => exact sameItems_trans hab hbc
      | _ => cases hbc
    | _ => cases hab
  | object xs =>
    cases b with
    | object ys =>
      cases c with
      | object zs => exact sameMembers_trans hab hbc
      | _ => cases hbc
    | _ => cases hab
termination_by structural a

theorem sameItems_trans {xs ys zs : List Json} (hxy : sameItems xs ys = true)
    (hyz : sameItems ys zs = true) : sameItems xs zs = true := by
  cases xs with
  | nil => cases ys <;> first | exact hyz | cases hxy
  | cons x xs =>
    cases ys with
    | nil => cases hxy
    | cons y ys =>
      cases zs with
      | nil => cases hyz
      | cons z zs =>
        simp only [sameItems, Bool.and_eq_true] at hxy hyz ⊢
        exact ⟨same_trans hxy.1 hyz.1, sameItems_trans hxy.2 hyz.2⟩
termination_by structural xs

theorem sameMembers_trans {xs ys zs : List (String × Json)} (hxy : sameMembers xs ys = true)
    (hyz : sameMembers ys zs = true) : sameMembers xs zs = true := by
  cases xs with
  | nil => cases ys <;> first | exact hyz | cases hxy
  | cons x xs =>
    obtain ⟨k, a⟩ := x
    cases ys with
    | nil => cases hxy
    | cons y ys =>
      obtain ⟨l, b⟩ := y
      cases zs with
      | nil => cases hyz
      | cons z zs =>
        obtain ⟨m, c⟩ := z
        simp only [sameMembers, Bool.and_eq_true, beq_iff_eq] at hxy hyz ⊢
        exact ⟨⟨hxy.1.1.trans hyz.1.1, same_trans hxy.1.2 hyz.1.2⟩,
          sameMembers_trans hxy.2 hyz.2⟩
termination_by structural xs

end

end Json

/-! ### Values -/

namespace Value

mutual

/-- No number in the value is NaN. -/
def NaNFree : Value → Prop
  | .decimal x => Number.isNaN x = false
  | .object ⟨_, _, properties⟩ => NaNFreeProperties properties
  | _ => True

/-- No number in the properties is NaN. -/
def NaNFreeProperties : List (String × Value) → Prop
  | [] => True
  | (_, value) :: rest => value.NaNFree ∧ NaNFreeProperties rest

end

mutual

/-- A value without NaN is the same as itself. -/
theorem same_self {v : Value} (h : v.NaNFree) : same v v = true := by
  cases v with
  | null => rfl
  | bool b => simp [same]
  | integer n => simp [same]
  | decimal x => exact Number.sameNumber_self h
  | text s => simp [same]
  | object bean =>
    obtain ⟨identity, typeName, properties⟩ := bean
    simpa [same] using sameProperties_self h

theorem sameProperties_self {properties : List (String × Value)}
    (h : NaNFreeProperties properties) : sameProperties properties properties = true := by
  cases properties with
  | nil => rfl
  | cons first rest =>
    obtain ⟨name, value⟩ := first
    simp [sameProperties, same_self h.1, sameProperties_self h.2]

end

mutual

theorem same_symm {a b : Value} (h : same a b = true) : same b a = true := by
  cases a with
  | null => cases b <;> exact h
  | bool p =>
    cases b with
    | bool q =>
      have heq : p = q := by simpa [same] using h
      rwa [heq] at h ⊢
    | _ => cases h
  | integer m =>
    cases b with
    | integer n =>
      have heq : m = n := by simpa [same] using h
      rwa [heq] at h ⊢
    | _ => cases h
  | decimal x =>
    cases b with
    | decimal y => exact Number.sameNumber_symm h
    | _ => cases h
  | text s =>
    cases b with
    | text t =>
      have heq : s = t := by simpa [same] using h
      rwa [heq] at h ⊢
    | _ => cases h
  | object bean =>
    cases b with
    | object other =>
      obtain ⟨_, t, ps⟩ := bean
      obtain ⟨_, u, qs⟩ := other
      simp only [same, Bool.and_eq_true, beq_iff_eq] at h ⊢
      exact ⟨h.1.symm, sameProperties_symm h.2⟩
    | _ => cases h
termination_by structural a

theorem sameProperties_symm {xs ys : List (String × Value)} (h : sameProperties xs ys = true) :
    sameProperties ys xs = true := by
  cases xs with
  | nil => cases ys <;> exact h
  | cons x xs =>
    obtain ⟨k, v⟩ := x
    cases ys with
    | nil => cases h
    | cons y ys =>
      obtain ⟨l, w⟩ := y
      simp only [sameProperties, Bool.and_eq_true, beq_iff_eq] at h ⊢
      exact ⟨⟨h.1.1.symm, same_symm h.1.2⟩, sameProperties_symm h.2⟩
termination_by structural xs

end

mutual

theorem same_trans {a b c : Value} (hab : same a b = true) (hbc : same b c = true) :
    same a c = true := by
  cases a with
  | null => cases b <;> first | exact hbc | cases hab
  | bool p =>
    cases b with
    | bool q =>
      rw [show p = q by simpa [same] using hab]
      exact hbc
    | _ => cases hab
  | integer m =>
    cases b with
    | integer n =>
      rw [show m = n by simpa [same] using hab]
      exact hbc
    | _ => cases hab
  | decimal x =>
    cases b with
    | decimal y =>
      cases c with
      | decimal z => exact Number.sameNumber_trans hab hbc
      | _ => cases hbc
    | _ => cases hab
  | text s =>
    cases b with
    | text t =>
      rw [show s = t by simpa [same] using hab]
      exact hbc
    | _ => cases hab
  | object bean =>
    cases b with
    | object middle =>
      cases c with
      | object last =>
        obtain ⟨_, t, ps⟩ := bean
        obtain ⟨_, u, qs⟩ := middle
        obtain ⟨_, v, rs⟩ := last
        simp only [same, Bool.and_eq_true, beq_iff_eq] at hab hbc ⊢
        exact ⟨hab.1.trans hbc.1, sameProperties_trans hab.2 hbc.2⟩
      | _ => cases hbc
    | _ => cases hab
termination_by structural a

theorem sameProperties_trans {xs ys zs : List (String × Value)}
    (hxy : sameProperties xs ys = true) (hyz : sameProperties ys zs = true) :
    sameProperties xs zs = true := by
  cases xs with
  | nil => cases ys <;> first | exact hyz | cases hxy
  | cons x xs =>
    obtain ⟨k, a⟩ := x
    cases ys with
    | nil => cases hxy
    | cons y ys =>
      obtain ⟨l, b⟩ := y
      cases zs with
      | nil => cases hyz
      | cons z zs =>
        obtain ⟨m, c⟩ := z
        simp only [sameProperties, Bool.and_eq_true, beq_iff_eq] at hxy hyz ⊢
        exact ⟨⟨hxy.1.1.trans hyz.1.1, same_trans hxy.1.2 hyz.1.2⟩,
          sameProperties_trans hxy.2 hyz.2⟩
termination_by structural xs

end

/-- The value of a property has no NaN if the object has none. -/
theorem nanFree_of_mem {properties : List (String × Value)} (h : NaNFreeProperties properties)
    {name : String} {value : Value} (hmem : (name, value) ∈ properties) : value.NaNFree := by
  induction properties with
  | nil => cases hmem
  | cons first rest ih =>
    rcases List.mem_cons.1 hmem with rfl | hmem
    · exact h.1
    · exact ih h.2 hmem

end Value

/-- No number in the object is NaN. -/
def Record.NaNFree (bean : Bean) : Prop :=
  (Value.object bean).NaNFree

theorem Record.NaNFree.valueOf {bean : Bean} (h : bean.NaNFree) (name : String) :
    (bean.valueOf name).NaNFree := by
  cases hfound : bean.property? name with
  | none =>
    rw [Record.valueOf, hfound]
    trivial
  | some value =>
    rw [Record.valueOf, hfound]
    exact Value.nanFree_of_mem h (Keyed.mem_of_find?_eq_some hfound)

end FieldGuard
