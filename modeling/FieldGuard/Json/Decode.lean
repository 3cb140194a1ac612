import FieldGuard.Json.Basic

/-!
# `FieldGuard.Json.Decode`: reading the members of an object

A member may be required, optional (missing and `null` both mean none) or have a
default, which stands in only for a missing member. A member that is there must
decode; members nobody asks for are ignored.
-/

set_option autoImplicit false

namespace FieldGuard.Json

variable {α : Type}

/-- Decodes every item, or fails with the first that does not decode. -/
def decodeAll? (read : Json → Option α) : List Json → Option (List α)
  | [] => some []
  | item :: rest => (read item).bind fun a => (decodeAll? read rest).map (a :: ·)

/-- Decodes an array item by item. -/
def listOf? (read : Json → Option α) : Json → Option (List α)
  | .array items => decodeAll? read items
  | _ => none

/-- Decodes an array of texts. -/
def strings? : Json → Option (List String) :=
  listOf? asString?

/-- Decodes the value of every member. -/
def decodeMembers? (read : Json → Option α) :
    List (String × Json) → Option (List (String × α))
  | [] => some []
  | (name, value) :: rest =>
    (read value).bind fun a => (decodeMembers? read rest).map ((name, a) :: ·)

/-- Decodes an object as pairs of name and value. -/
def pairsOf? (read : Json → Option α) : Json → Option (List (String × α))
  | .object members => decodeMembers? read members
  | _ => none

/-- A member that has to be there. -/
def required? (name : String) (read : Json → Option α) (members : List (String × Json)) : Option α :=
  (Keyed.find? name members).bind read

/-- A member that may be missing or `null`. -/
def optional? (name : String) (read : Json → Option α) (members : List (String × Json)) :
    Option (Option α) :=
  match Keyed.find? name members with
  | none => some none
  | some .null => some none
  | some value => (read value).map some

/-- A member for which a default stands in when it is missing. -/
def defaulted? (name : String) (default : α) (read : Json → Option α)
    (members : List (String × Json)) : Option α :=
  match Keyed.find? name members with
  | none => some default
  | some value => read value

/-! ### Items and members that decode from their own encoding -/

section

variable {write : α → Json} {read : Json → Option α}

theorem decodeAll?_map {items : List α} (h : ∀ a ∈ items, read (write a) = some a) :
    decodeAll? read (items.map write) = some items := by
  induction items with
  | nil => rfl
  | cons a rest ih =>
    rw [List.map_cons, decodeAll?, h a List.mem_cons_self,
      ih fun b hb => h b (List.mem_cons_of_mem _ hb)]
    rfl

theorem listOf?_map {items : List α} (h : ∀ a ∈ items, read (write a) = some a) :
    listOf? read (.array (items.map write)) = some items :=
  decodeAll?_map h

theorem pairsOf?_map {pairs : List (String × α)}
    (h : ∀ pair ∈ pairs, read (write pair.2) = some pair.2) :
    pairsOf? read (.object (pairs.map fun pair => (pair.1, write pair.2))) = some pairs := by
  rw [pairsOf?]
  induction pairs with
  | nil => rfl
  | cons pair rest ih =>
    rw [List.map_cons, decodeMembers?, h pair List.mem_cons_self,
      ih fun p hp => h p (List.mem_cons_of_mem _ hp)]
    rfl

end

@[simp] theorem strings?_strings (items : List String) : strings? (strings items) = some items :=
  listOf?_map fun _ _ => rfl

/-! ### Members in a given order -/

section

variable {name k : String} {json : Json} {default : α} {read : Json → Option α}
  {members : List (String × Json)}

@[simp] theorem required?_cons :
    required? name read ((k, json) :: members)
      = if k = name then read json else required? name read members := by
  rw [required?, Keyed.find?_cons]
  split <;> rfl

@[simp] theorem defaulted?_cons :
    defaulted? name default read ((k, json) :: members)
      = if k = name then read json else defaulted? name default read members := by
  rw [defaulted?, Keyed.find?_cons]
  by_cases h : k = name
  · rw [if_pos h, if_pos h]
  · rw [if_neg h, if_neg h]
    rfl

@[simp] theorem optional?_cons_of_ne (h : k ≠ name) :
    optional? name read ((k, json) :: members) = optional? name read members := by
  rw [optional?, Keyed.find?_cons, if_neg h]
  rfl

/-- An optional value decodes from its encoding, as no value is written as `null`. -/
theorem optional?_cons_orNull {write : α → Json} {o : Option α}
    (h : ∀ a ∈ o, read (write a) = some a ∧ write a ≠ .null) :
    optional? name read ((name, orNull write o) :: members) = some o := by
  rw [optional?, Keyed.find?_cons, if_pos rfl]
  cases o with
  | none => rfl
  | some a =>
    obtain ⟨hread, hnull⟩ := h a rfl
    show (match some (write a) with
      | none => some none
      | some .null => some none
      | some value => (read value).map some) = _
    split
    · next heq => cases heq
    · next heq => exact absurd (Option.some_inj.1 heq) hnull
    · next heq =>
      rw [← Option.some_inj.1 heq, hread]
      rfl

/-! The members of an object stand in the order of their names. That makes no difference to
reading them, if no name comes up twice. -/

theorem required?_ofList (h : (members.map (·.1)).Nodup) :
    required? name read (Keyed.ofList members) = required? name read members := by
  rw [required?, Keyed.find?_ofList h]
  rfl

theorem defaulted?_ofList (h : (members.map (·.1)).Nodup) :
    defaulted? name default read (Keyed.ofList members) = defaulted? name default read members := by
  rw [defaulted?, Keyed.find?_ofList h]
  rfl

theorem optional?_ofList (h : (members.map (·.1)).Nodup) :
    optional? name read (Keyed.ofList members) = optional? name read members := by
  rw [optional?, Keyed.find?_ofList h]
  rfl

end

end FieldGuard.Json
