import FieldGuard.Keyed

/-!
# `FieldGuard.Dict`: dictionaries with text keys

A dictionary holds its pairs in increasing key order, as an invariant of the
type, so that two dictionaries with the same look-ups are the same dictionary.

* `get?_insert`, `get?_erase`, `get?_filter`: what each operation does to look-ups;
* `ext_get?`: dictionaries are equal when all look-ups agree.
-/

set_option autoImplicit false

namespace FieldGuard

universe u v

/-- Pairs of key and value in strictly increasing key order. -/
structure Dict (α : Type u) where
  pairs : List (String × α)
  sorted : Keyed.Sorted pairs := by exact List.Pairwise.nil

namespace Dict

variable {α : Type u} {β : Type v}

/-- The dictionary without pairs. -/
def empty : Dict α := { pairs := [] }

instance : EmptyCollection (Dict α) := ⟨empty⟩

instance : Inhabited (Dict α) := ⟨empty⟩

/-- Value under the key. -/
def get? (d : Dict α) (key : String) : Option α :=
  Keyed.find? key d.pairs

/-- Value under the key, or the given one. -/
def getD (d : Dict α) (key : String) (default : α) : α :=
  (d.get? key).getD default

/-- Whether there is a value under the key. -/
def contains (d : Dict α) (key : String) : Bool :=
  (d.get? key).isSome

/-- Puts a value under the key, replacing one that is there. -/
def insert (d : Dict α) (key : String) (value : α) : Dict α :=
  ⟨Keyed.insert key value d.pairs, Keyed.sorted_insert key value d.sorted⟩

/-- Drops the value under the key. -/
def erase (d : Dict α) (key : String) : Dict α :=
  ⟨Keyed.erase key d.pairs, Keyed.sorted_erase key d.sorted⟩

/-- The pairs for which `p` holds. -/
def filter (p : String → α → Bool) (d : Dict α) : Dict α :=
  ⟨d.pairs.filter fun pair => p pair.1 pair.2, Keyed.sorted_filter _ d.sorted⟩

/-- Of two pairs with one key the later counts. -/
def ofList (pairs : List (String × α)) : Dict α :=
  ⟨Keyed.ofList pairs, Keyed.sorted_ofList pairs⟩

/-- The keys in increasing order. -/
def keys (d : Dict α) : List String :=
  d.pairs.map (·.1)

/-- The values in the order of their keys. -/
def values (d : Dict α) : List α :=
  d.pairs.map (·.2)

/-- Number of pairs. -/
def size (d : Dict α) : Nat :=
  d.pairs.length

/-- Whether there is no pair. -/
def isEmpty (d : Dict α) : Bool :=
  d.pairs.isEmpty

theorem ext {d e : Dict α} (h : d.pairs = e.pairs) : d = e := by
  cases d; cases e; cases h; rfl

instance [BEq α] : BEq (Dict α) := ⟨fun d e => d.pairs == e.pairs⟩

instance [DecidableEq α] : DecidableEq (Dict α) := fun d e =>
  if h : d.pairs = e.pairs then isTrue (ext h) else isFalse fun he => h (he ▸ rfl)

/-! ### Look-ups -/

@[simp] theorem get?_empty (key : String) : (∅ : Dict α).get? key = none := rfl

theorem get?_insert (d : Dict α) (key other : String) (value : α) :
    (d.insert key value).get? other = if key = other then some value else d.get? other :=
  Keyed.find?_insert key other value d.pairs

@[simp] theorem get?_insert_self (d : Dict α) (key : String) (value : α) :
    (d.insert key value).get? key = some value :=
  Keyed.find?_insert_self key value d.pairs

theorem get?_erase (d : Dict α) (key other : String) :
    (d.erase key).get? other = if key = other then none else d.get? other :=
  Keyed.find?_erase key other d.pairs

theorem get?_filter (d : Dict α) (key : String) (p : String → α → Bool) :
    (d.filter p).get? key = (d.get? key).filter (p key) :=
  Keyed.find?_filter key p d.sorted

theorem get?_eq_some_iff {d : Dict α} {key : String} {value : α} :
    d.get? key = some value ↔ (key, value) ∈ d.pairs :=
  Keyed.find?_eq_some_iff d.sorted.nodup

/-- The dictionary of the pairs of a dictionary. -/
theorem ofList_pairs (d : Dict α) : ofList d.pairs = d :=
  ext (Keyed.ofList_of_sorted d.sorted)

/-- Dictionaries are equal when all look-ups agree. -/
theorem ext_get? {d e : Dict α} (h : ∀ key, d.get? key = e.get? key) : d = e :=
  ext (Keyed.eq_of_find?_eq d.sorted e.sorted h)

/-- What is erased under a key is not missed by an insertion under it. -/
theorem insert_erase_self (d : Dict α) (key : String) (value : α) :
    (d.erase key).insert key value = d.insert key value := by
  refine ext_get? fun k => ?_
  simp only [get?_insert, get?_erase]
  by_cases hk : key = k <;> simp [hk]

/-- An insertion is undone together with what it replaced. -/
theorem erase_insert_self (d : Dict α) (key : String) (value : α) :
    (d.insert key value).erase key = d.erase key := by
  refine ext_get? fun k => ?_
  simp only [get?_insert, get?_erase]
  by_cases hk : key = k <;> simp [hk]

/-- Inserting what is there changes nothing. -/
theorem insert_eq_self {d : Dict α} {key : String} {value : α} (h : d.get? key = some value) :
    d.insert key value = d := by
  refine ext_get? fun k => ?_
  rw [get?_insert]
  split
  · next hk => rw [← hk, h]
  · rfl

/-- Nothing is left to erase the second time. -/
theorem erase_erase_self (d : Dict α) (key : String) : (d.erase key).erase key = d.erase key := by
  refine ext_get? fun k => ?_
  simp only [get?_erase]
  by_cases hk : key = k <;> simp [hk]

/-- Erasing changes nothing just when there is no entry. -/
theorem erase_eq_self_iff {d : Dict α} {key : String} : d.erase key = d ↔ d.get? key = none := by
  constructor
  · intro h
    rw [← h, get?_erase, if_pos rfl]
  · intro h
    refine ext_get? fun k => ?_
    rw [get?_erase]
    split
    · next hk => rw [← hk, h]
    · rfl

end Dict

end FieldGuard
