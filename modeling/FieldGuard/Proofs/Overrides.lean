import FieldGuard.Settings.Basic

/-!
# `FieldGuard.Proofs.Overrides`: overrides in any order

An override is looked up by its exact key first. That does not depend on the order in which the
overrides are walked through, since no key comes twice. Without the exact key the first one counts
that is equal up to ASCII case, and which one is the first does depend on the order.

The order does not matter just when the overrides are unambiguous: the exact key is there, or all
keys that are equal to it up to case have one and the same name. That condition is exact, because
any of these keys can come first.

* `Keyed.find?_perm`: an exact look-up is the same in every order;
* `Overrides.lookup?_congr`: so is any look-up, if the overrides are unambiguous;
* `Overrides.lookup?_congr_iff`: and only then.
-/

set_option autoImplicit false

namespace FieldGuard

/-- An exact look-up is the same in every order, as no key comes twice. -/
theorem Keyed.find?_perm {α : Type} {order pairs : List (String × α)} (h : order.Perm pairs)
    (hkeys : (pairs.map (·.1)).Nodup) (key : String) :
    Keyed.find? key order = Keyed.find? key pairs := by
  have hkeys' : (order.map (·.1)).Nodup := (h.map _).nodup_iff.2 hkeys
  refine Option.ext fun value => ?_
  rw [find?_eq_some_iff hkeys', find?_eq_some_iff hkeys, h.mem_iff]

/-- What the first of some elements is mapped to does not depend on their order, if all of them are
mapped to the same. -/
theorem map_find?_perm {α β : Type} {xs ys : List α} {p : α → Bool} {f : α → β}
    (h : xs.Perm ys) (hf : ∀ a ∈ xs, ∀ b ∈ xs, p a = true → p b = true → f a = f b) :
    (xs.find? p).map f = (ys.find? p).map f := by
  cases hx : xs.find? p with
  | some a =>
    have ha := List.mem_of_find?_eq_some hx
    have hfound : (ys.find? p).isSome = true := by
      rw [List.find?_isSome]
      exact ⟨a, h.mem_iff.1 ha, List.find?_some hx⟩
    obtain ⟨b, hy⟩ := Option.isSome_iff_exists.1 hfound
    have hb := h.mem_iff.2 (List.mem_of_find?_eq_some hy)
    rw [hy, Option.map_some, Option.map_some,
      hf a ha b hb (List.find?_some hx) (List.find?_some hy)]
  | none =>
    have hy : ys.find? p = none := by
      rw [List.find?_eq_none] at hx ⊢
      exact fun b hb => hx b (h.mem_iff.2 hb)
    rw [hy]

namespace Overrides

/-! ### Orders -/

/-- The key is there, or all keys that are equal to it up to ASCII case have the same name. -/
def Unambiguous (overrides : Overrides) (key : String) : Prop :=
  overrides.get? key ≠ none ∨
    ∀ a ∈ overrides.pairs, ∀ b ∈ overrides.pairs, sameIgnoringCase a.1 key = true →
      sameIgnoringCase b.1 key = true → a.2 = b.2

instance (overrides : Overrides) (key : String) : Decidable (overrides.Unambiguous key) :=
  inferInstanceAs (Decidable (_ ∨ _))

namespace Order

/-- An order in which one of the overrides comes first. -/
def startingWith (overrides : Overrides) {pair : String × String} (h : pair ∈ overrides.pairs) :
    Order overrides :=
  ⟨pair :: overrides.pairs.erase pair, (List.perm_cons_erase h).symm⟩

end Order

section

variable {overrides : Overrides} {key : String} (o : Order overrides)

/-- The exact key wins in every order. -/
theorem lookup?_of_exact {name : String} (h : overrides.get? key = some name) :
    o.lookup? key = some name :=
  find?_of_exact ((Keyed.find?_perm o.perm overrides.sorted.nodup key).trans h)

/-- Without it, the first key counts that is equal up to case. -/
theorem lookup?_of_not_exact (h : overrides.get? key = none) :
    o.lookup? key = (o.pairs.find? fun pair => sameIgnoringCase pair.1 key).map (·.2) := by
  have hexact : Keyed.find? key o.pairs = none :=
    (Keyed.find?_perm o.perm overrides.sorted.nodup key).trans h
  rw [Order.lookup?, find?, hexact]

/-- Any of these keys can be the first. -/
theorem lookup?_startingWith (h : overrides.get? key = none) {pair : String × String}
    (hmem : pair ∈ overrides.pairs) (hsame : sameIgnoringCase pair.1 key = true) :
    (Order.startingWith overrides hmem).lookup? key = some pair.2 := by
  have hfirst : (pair :: overrides.pairs.erase pair).find? (fun p => sameIgnoringCase p.1 key)
      = some pair := by
    rw [List.find?_cons, hsame]
  rw [lookup?_of_not_exact _ h, Order.startingWith, hfirst, Option.map_some]

/-- If they all have the same name, it does not matter which one is. -/
theorem lookup?_congr (o' : Order overrides) (h : overrides.Unambiguous key) :
    o.lookup? key = o'.lookup? key := by
  cases hkey : overrides.get? key with
  | some name => rw [lookup?_of_exact o hkey, lookup?_of_exact o' hkey]
  | none =>
    have hnames := h.resolve_left fun hne => hne hkey
    rw [lookup?_of_not_exact o hkey, lookup?_of_not_exact o' hkey]
    exact map_find?_perm (o.perm.trans o'.perm.symm) fun a ha b hb =>
      hnames a (o.perm.mem_iff.1 ha) b (o.perm.mem_iff.1 hb)

/-- A look-up is the same in every order just when the overrides are unambiguous. -/
theorem lookup?_congr_iff :
    (∀ o : Order overrides, o.lookup? key = (Order.byKey overrides).lookup? key) ↔
      overrides.Unambiguous key := by
  constructor
  · intro h
    by_cases hkey : overrides.get? key = none
    · refine .inr ?_
      -- Either of two such keys can come first, and both orders have the same name.
      intro a ha b hb hsa hsb
      have hfirst := lookup?_startingWith hkey ha hsa
      have hsecond := lookup?_startingWith hkey hb hsb
      rw [h] at hfirst hsecond
      exact Option.some.inj (hfirst.symm.trans hsecond)
    · exact .inl hkey
  · intro h o
    exact lookup?_congr o (.byKey overrides) h

end

end Overrides

end FieldGuard
