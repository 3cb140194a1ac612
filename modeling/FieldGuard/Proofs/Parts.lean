import Mathlib.Data.List.Basic

/-!
# `FieldGuard.Proofs.Parts`: sequences that are put together from parts

Two sequences are put together from parts for the same items, and no part of the first one is
longer than that of the second. Then they are equal only part by part: a part that is missing or
cut short in one place cannot be made up for in another.

* `flatMap_eq_flatMap_iff_of_length_le`: the parts one by one;
* `filterMap_eq_filterMap_iff`: the same for items that are left out or kept.
-/

set_option autoImplicit false

namespace FieldGuard

section

variable {α β : Type}

theorem append_eq_append_iff_of_length_le {xs xs' ys ys' : List α} (h : xs.length ≤ ys.length)
    (h' : xs'.length ≤ ys'.length) : xs ++ xs' = ys ++ ys' ↔ xs = ys ∧ xs' = ys' := by
  constructor
  · intro happend
    have hlength := congrArg List.length happend
    rw [List.length_append, List.length_append] at hlength
    exact List.append_inj happend (by omega)
  · rintro ⟨rfl, rfl⟩
    rfl

theorem length_flatMap_le {f g : α → List β} {xs : List α}
    (h : ∀ x ∈ xs, (f x).length ≤ (g x).length) :
    (xs.flatMap f).length ≤ (xs.flatMap g).length := by
  induction xs with
  | nil => exact Nat.le_refl _
  | cons x rest ih =>
    obtain ⟨hx, hrest⟩ := List.forall_mem_cons.1 h
    rw [List.flatMap_cons, List.flatMap_cons, List.length_append, List.length_append]
    exact Nat.add_le_add hx (ih hrest)

/-- If no part is longer than the other one for its item, the sequences are equal just when all
parts are. -/
theorem flatMap_eq_flatMap_iff_of_length_le {f g : α → List β} {xs : List α}
    (h : ∀ x ∈ xs, (f x).length ≤ (g x).length) :
    xs.flatMap f = xs.flatMap g ↔ ∀ x ∈ xs, f x = g x := by
  induction xs with
  | nil => simp
  | cons x rest ih =>
    obtain ⟨hx, hrest⟩ := List.forall_mem_cons.1 h
    rw [List.flatMap_cons, List.flatMap_cons,
      append_eq_append_iff_of_length_le hx (length_flatMap_le hrest), ih hrest,
      List.forall_mem_cons]

/-- If no item is kept on the first side only, the items that are kept are the same just when each
item becomes the same. -/
theorem filterMap_eq_filterMap_iff {f g : α → Option β} {xs : List α}
    (h : ∀ x ∈ xs, (f x).isSome = true → (g x).isSome = true) :
    xs.filterMap f = xs.filterMap g ↔ ∀ x ∈ xs, f x = g x := by
  have hlength : ∀ x ∈ xs, (f x).toList.length ≤ (g x).toList.length := by
    intro x hx
    have hkept := h x hx
    cases hf : f x with
    | none => exact Nat.zero_le _
    | some y =>
      rw [hf] at hkept
      obtain ⟨z, hz⟩ := Option.isSome_iff_exists.1 (hkept rfl)
      rw [hz]
      exact Nat.le_refl _
  have htoList : ∀ a b : Option β, a.toList = b.toList ↔ a = b := by
    intro a b
    cases a <;> cases b <;> simp
  rw [List.filterMap_eq_flatMap_toList, List.filterMap_eq_flatMap_toList,
    flatMap_eq_flatMap_iff_of_length_le hlength]
  simp only [htoList]

end

end FieldGuard
