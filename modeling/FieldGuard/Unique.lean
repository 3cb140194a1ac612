/-!
# `FieldGuard.Unique`: lists without repetition

`addUnique` puts an item at the end of a list unless it is there already.

* `mem_addUnique`: the item is in the list afterwards, and nothing else is new;
* `nodup_addUnique`: a list without repetition stays one.
-/

set_option autoImplicit false

namespace FieldGuard

variable {α : Type}

/-- Puts an item at the end unless it is there. -/
def addUnique [BEq α] (items : List α) (item : α) : List α :=
  if items.contains item then items else items ++ [item]

theorem mem_addUnique [BEq α] [LawfulBEq α] {items : List α} {item other : α} :
    other ∈ addUnique items item ↔ other ∈ items ∨ other = item := by
  unfold addUnique
  split
  · next h =>
    have hmem : item ∈ items := by simpa using h
    exact ⟨.inl, fun ho => ho.elim id fun e => e ▸ hmem⟩
  · simp

theorem nodup_addUnique [BEq α] [LawfulBEq α] {items : List α} (item : α) (h : items.Nodup) :
    (addUnique items item).Nodup := by
  unfold addUnique
  split
  · exact h
  · next hc =>
    have hmem : item ∉ items := by simpa using hc
    refine List.nodup_append.2 ⟨h, by simp, fun a ha b hb => ?_⟩
    rw [List.mem_singleton.1 hb]
    exact fun e => hmem (e ▸ ha)

end FieldGuard
