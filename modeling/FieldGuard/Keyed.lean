/-!
# `FieldGuard.Keyed`: lists of pairs in increasing key order

Plain lists of key and value, for the places where a type with an invariant
cannot stand (inside a recursive type). `insert` keeps the keys increasing and
replaces a value that is there; `find?` yields the value of the first pair with
the key.

* `find?_insert`, `find?_erase`: what each operation does to look-ups, on any list;
* `sorted_insert`, `sorted_erase`: increasing keys stay increasing;
* `eq_of_find?_eq`: lists with increasing keys and the same look-ups are equal;
* `find?_ofList`: bringing pairs with distinct keys in order changes no look-up.
-/

set_option autoImplicit false

namespace FieldGuard.Keyed

universe u

variable {α : Type u}

/-- Value of the first pair with the key. -/
def find? (key : String) : List (String × α) → Option α
  | [] => none
  | (k, v) :: rest => if k = key then some v else find? key rest

/-- Puts the value at its place in the key order; a value that is there is replaced. -/
def insert (key : String) (value : α) : List (String × α) → List (String × α)
  | [] => [(key, value)]
  | (k, v) :: rest =>
    if key < k then (key, value) :: (k, v) :: rest
    else if k = key then (key, value) :: rest
    else (k, v) :: insert key value rest

/-- Drops every pair with the key. -/
def erase (key : String) (pairs : List (String × α)) : List (String × α) :=
  pairs.filter fun pair => pair.1 ≠ key

/-- The pairs in key order; of two with one key the later counts. -/
def ofList (pairs : List (String × α)) : List (String × α) :=
  pairs.foldl (fun sorted pair => insert pair.1 pair.2 sorted) []

/-- Strictly increasing keys. -/
def Sorted (pairs : List (String × α)) : Prop :=
  pairs.Pairwise fun a b => a.1 < b.1

/-! ### Look-ups -/

@[simp] theorem find?_nil (key : String) : find? key ([] : List (String × α)) = none := rfl

theorem find?_cons (key k : String) (v : α) (rest : List (String × α)) :
    find? key ((k, v) :: rest) = if k = key then some v else find? key rest := rfl

theorem find?_insert_self (key : String) (value : α) (pairs : List (String × α)) :
    find? key (insert key value pairs) = some value := by
  induction pairs with
  | nil => simp [insert, find?]
  | cons pair rest ih =>
    obtain ⟨k, v⟩ := pair
    rw [insert]
    split
    · simp [find?]
    · split
      · simp [find?]
      · next hk => simp [find?, hk, ih]

theorem find?_insert_ne {key other : String} (h : key ≠ other) (value : α)
    (pairs : List (String × α)) :
    find? other (insert key value pairs) = find? other pairs := by
  induction pairs with
  | nil => simp [insert, find?, h]
  | cons pair rest ih =>
    obtain ⟨k, v⟩ := pair
    rw [insert]
    split
    · simp [find?, h]
    · split
      · next hk => subst hk; simp [find?, h]
      · simp [find?, ih]

/-- A look-up after an insertion sees the new value under its key and the old ones elsewhere. -/
theorem find?_insert (key other : String) (value : α) (pairs : List (String × α)) :
    find? other (insert key value pairs) = if key = other then some value else find? other pairs := by
  split
  · next h => subst h; exact find?_insert_self _ _ _
  · next h => exact find?_insert_ne h _ _

theorem find?_filter_key (other : String) (p : String → Bool) (pairs : List (String × α)) :
    find? other (pairs.filter fun pair => p pair.1) = if p other then find? other pairs else none := by
  induction pairs with
  | nil => simp
  | cons pair rest ih =>
    obtain ⟨k, v⟩ := pair
    by_cases hk : k = other
    · subst hk
      by_cases hp : p k = true <;> simp [find?, hp, ih]
    · by_cases hp : p k = true <;> simp [find?, hk, hp, ih]

/-- A look-up after an erasure misses the key and sees all others. -/
theorem find?_erase (key other : String) (pairs : List (String × α)) :
    find? other (erase key pairs) = if key = other then none else find? other pairs := by
  have h := find?_filter_key other (fun k => decide (k ≠ key)) pairs
  rw [erase, h]
  by_cases hk : key = other
  · subst hk; simp
  · simp [hk, Ne.symm hk]

theorem mem_of_find?_eq_some {key : String} {value : α} {pairs : List (String × α)}
    (h : find? key pairs = some value) : (key, value) ∈ pairs := by
  induction pairs with
  | nil => simp at h
  | cons pair rest ih =>
    obtain ⟨k, v⟩ := pair
    rw [find?_cons] at h
    split at h
    · next hk => cases h; subst hk; exact List.mem_cons_self
    · exact List.mem_cons_of_mem _ (ih h)

/-! ### Increasing keys -/

theorem mem_insert {key : String} {value : α} {pair : String × α} {pairs : List (String × α)}
    (h : pair ∈ insert key value pairs) : pair = (key, value) ∨ pair ∈ pairs := by
  induction pairs with
  | nil => simpa [insert] using h
  | cons hd rest ih =>
    obtain ⟨k, v⟩ := hd
    rw [insert] at h
    split at h
    · simpa using h
    · split at h
      · rcases List.mem_cons.1 h with h | h
        · exact .inl h
        · exact .inr (List.mem_cons_of_mem _ h)
      · rcases List.mem_cons.1 h with h | h
        · exact .inr (h ▸ List.mem_cons_self)
        · exact (ih h).imp id (List.mem_cons_of_mem _)

theorem sorted_insert (key : String) (value : α) {pairs : List (String × α)}
    (h : Sorted pairs) : Sorted (insert key value pairs) := by
  induction pairs with
  | nil => simp [insert, Sorted]
  | cons hd rest ih =>
    obtain ⟨k, v⟩ := hd
    have hhead : ∀ pair ∈ rest, k < pair.1 := (List.pairwise_cons.1 h).1
    have htail : Sorted rest := (List.pairwise_cons.1 h).2
    rw [insert]
    split
    · next hlt =>
      refine List.pairwise_cons.2 ⟨fun pair hp => ?_, h⟩
      rcases List.mem_cons.1 hp with rfl | hp
      · exact hlt
      · exact String.lt_trans hlt (hhead pair hp)
    · next hlt =>
      split
      · next hk => exact List.pairwise_cons.2 ⟨fun pair hp => hk ▸ hhead pair hp, htail⟩
      · next hk =>
        refine List.pairwise_cons.2 ⟨fun pair hp => ?_, ih htail⟩
        rcases mem_insert hp with rfl | hp
        · have hle : k ≤ key := String.not_lt.1 hlt
          exact Classical.byContradiction fun hn =>
            hk (String.le_antisymm hle (String.not_lt.1 hn))
        · exact hhead pair hp

theorem sorted_filter (p : String × α → Bool) {pairs : List (String × α)} (h : Sorted pairs) :
    Sorted (pairs.filter p) :=
  List.Pairwise.filter p h

theorem sorted_erase (key : String) {pairs : List (String × α)} (h : Sorted pairs) :
    Sorted (erase key pairs) :=
  sorted_filter _ h

theorem sorted_foldl_insert {pairs start : List (String × α)} (h : Sorted start) :
    Sorted (pairs.foldl (fun sorted pair => insert pair.1 pair.2 sorted) start) := by
  induction pairs generalizing start with
  | nil => exact h
  | cons pair rest ih => exact ih (sorted_insert _ _ h)

theorem sorted_ofList (pairs : List (String × α)) : Sorted (ofList pairs) :=
  sorted_foldl_insert List.Pairwise.nil

/-! ### Extensionality -/

theorem find?_eq_none_of_lt {key : String} {pairs : List (String × α)}
    (h : ∀ pair ∈ pairs, key < pair.1) : find? key pairs = none := by
  induction pairs with
  | nil => rfl
  | cons pair rest ih =>
    obtain ⟨k, v⟩ := pair
    have hk : k ≠ key := fun e => String.lt_irrefl key (by simpa [e] using h (k, v) List.mem_cons_self)
    rw [find?_cons, if_neg hk]
    exact ih fun pair hp => h pair (List.mem_cons_of_mem _ hp)

/-- A look-up after a filter misses what is filtered out, as no key comes up twice. -/
theorem find?_filter (key : String) (p : String → α → Bool) {pairs : List (String × α)}
    (h : Sorted pairs) :
    find? key (pairs.filter fun pair => p pair.1 pair.2) = (find? key pairs).filter (p key) := by
  induction pairs with
  | nil => rfl
  | cons pair rest ih =>
    obtain ⟨k, v⟩ := pair
    have hrest := ih (List.pairwise_cons.1 h).2
    rw [List.filter_cons, find?_cons]
    by_cases hk : k = key
    · subst hk
      rw [if_pos rfl]
      cases hp : p k v with
      | true => simp [find?_cons, Option.filter, hp]
      | false =>
        rw [if_neg (by simp), hrest, find?_eq_none_of_lt (List.pairwise_cons.1 h).1]
        simp [Option.filter, hp]
    · rw [if_neg hk]
      split
      · rw [find?_cons, if_neg hk, hrest]
      · exact hrest

/-- Lists with increasing keys and the same look-ups are equal. -/
theorem eq_of_find?_eq {xs ys : List (String × α)} (hx : Sorted xs) (hy : Sorted ys)
    (h : ∀ key, find? key xs = find? key ys) : xs = ys := by
  induction xs generalizing ys with
  | nil =>
    cases ys with
    | nil => rfl
    | cons pair rest =>
      obtain ⟨k, v⟩ := pair
      simpa [find?_cons] using h k
  | cons pair rest ih =>
    obtain ⟨k, v⟩ := pair
    have hxhead : ∀ p ∈ rest, k < p.1 := (List.pairwise_cons.1 hx).1
    cases ys with
    | nil => simpa [find?_cons] using h k
    | cons pair' rest' =>
      obtain ⟨k', v'⟩ := pair'
      have hyhead : ∀ p ∈ rest', k' < p.1 := (List.pairwise_cons.1 hy).1
      have hk : k = k' := by
        refine Classical.byContradiction fun hne => ?_
        by_cases hlt : k < k'
        · have hnone : find? k ((k', v') :: rest') = none := by
            refine find?_eq_none_of_lt fun p hp => ?_
            rcases List.mem_cons.1 hp with rfl | hp
            · exact hlt
            · exact String.lt_trans hlt (hyhead p hp)
          rw [← h k] at hnone
          simp [find?_cons] at hnone
        · have hgt : k' < k := Classical.byContradiction fun hn =>
            hne (String.le_antisymm (String.not_lt.1 hn) (String.not_lt.1 hlt))
          have hnone : find? k' ((k, v) :: rest) = none := by
            refine find?_eq_none_of_lt fun p hp => ?_
            rcases List.mem_cons.1 hp with rfl | hp
            · exact hgt
            · exact String.lt_trans hgt (hxhead p hp)
          rw [h k'] at hnone
          simp [find?_cons] at hnone
      subst hk
      have hv : v = v' := by simpa [find?_cons] using h k
      subst hv
      have hrest : rest = rest' := by
        refine ih (List.pairwise_cons.1 hx).2 (List.pairwise_cons.1 hy).2 fun key => ?_
        by_cases hkey : k = key
        · subst hkey
          rw [find?_eq_none_of_lt hxhead, find?_eq_none_of_lt hyhead]
        · simpa [find?_cons, hkey] using h key
      rw [hrest]

/-! ### Distinct keys -/

theorem find?_eq_none_iff {key : String} {pairs : List (String × α)} :
    find? key pairs = none ↔ key ∉ pairs.map (·.1) := by
  induction pairs with
  | nil => simp
  | cons pair rest ih =>
    obtain ⟨k, v⟩ := pair
    rw [find?_cons, List.map_cons, List.mem_cons, not_or]
    split
    · next hk => simp [hk]
    · next hk => simp [ih, Ne.symm hk]

/-- Among distinct keys a look-up sees every pair. -/
theorem find?_eq_some_iff {key : String} {value : α} {pairs : List (String × α)}
    (h : (pairs.map (·.1)).Nodup) : find? key pairs = some value ↔ (key, value) ∈ pairs := by
  refine ⟨mem_of_find?_eq_some, fun hmem => ?_⟩
  induction pairs with
  | nil => cases hmem
  | cons pair rest ih =>
    obtain ⟨k, v⟩ := pair
    obtain ⟨hk, hrest⟩ := List.nodup_cons.1 h
    rw [find?_cons]
    rcases List.mem_cons.1 hmem with heq | hmem
    · cases heq
      rw [if_pos rfl]
    · have hne : k ≠ key := fun e => hk (e ▸ List.mem_map.2 ⟨_, hmem, rfl⟩)
      rw [if_neg hne, ih hrest hmem]

theorem Sorted.nodup {pairs : List (String × α)} (h : Sorted pairs) :
    (pairs.map (·.1)).Nodup := by
  refine List.pairwise_map.2 (h.imp fun {a b} hlt heq => ?_)
  rw [heq] at hlt
  exact String.lt_irrefl b.1 hlt

theorem find?_foldl_insert {pairs : List (String × α)} (h : (pairs.map (·.1)).Nodup) (key : String)
    (start : List (String × α)) :
    find? key (pairs.foldl (fun sorted pair => insert pair.1 pair.2 sorted) start)
      = (find? key pairs).or (find? key start) := by
  induction pairs generalizing start with
  | nil => rfl
  | cons pair rest ih =>
    obtain ⟨k, v⟩ := pair
    obtain ⟨hk, hrest⟩ := List.nodup_cons.1 h
    rw [List.foldl_cons, ih hrest, find?_insert, find?_cons]
    split
    · next heq => rw [← heq, find?_eq_none_iff.2 hk]; rfl
    · rfl

/-- Pairs with distinct keys keep their values when they are brought in order. -/
theorem find?_ofList {pairs : List (String × α)} (h : (pairs.map (·.1)).Nodup) (key : String) :
    find? key (ofList pairs) = find? key pairs := by
  rw [ofList, find?_foldl_insert h, find?_nil, Option.or_none]

/-- Pairs in increasing key order are in order already. -/
theorem ofList_of_sorted {pairs : List (String × α)} (h : Sorted pairs) : ofList pairs = pairs :=
  eq_of_find?_eq (sorted_ofList pairs) h (find?_ofList h.nodup)

end FieldGuard.Keyed
