import FieldGuard.Proofs.Rounding
import FieldGuard.Transformer.Standard
import Mathlib.Data.List.Induction

/-!
# `FieldGuard.Proofs.MergedBounds`: the bounds of merged metadata

Metadata is merged one after the other, and of two bounds the stricter one is kept. A number
should keep the merged bound just when it keeps the bounds of all metadata. The stricter of two
bounds is found after both have become floating point numbers, so this holds up to rounding
(`nearest`): of bounds that become the same floating point number the first is kept, whether it
is the strictest of them or not.

What is said here of a lower and of an upper bound is the same, with the order turned round; a
`Side` says which of them is meant. The invariant `Side.StandsFor` says what the bound of merged
metadata is, and goes through one merge (`Side.StandsFor.snoc`) and so through all of them
(`standsFor_mergeAll`).

* `get?_merge_whole`: the bound that one merge keeps;
* `mergeAll_admits_iff`: what the merged bound admits, and when it is exact;
* `mergeAll_admits_too_much`: a weaker bound that is kept.
-/

set_option autoImplicit false

namespace FieldGuard.Metadata

open Number (nearest)

/-- Metadata merged one after the other. -/
def mergeAll (maps : List Metadata) : Metadata :=
  maps.foldl merge ∅

theorem mergeAll_snoc (maps : List Metadata) (m : Metadata) :
    mergeAll (maps ++ [m]) = merge (mergeAll maps) m := by
  simp only [mergeAll, List.foldl_append, List.foldl_cons, List.foldl_nil]

/-- The whole number under a name. -/
def whole? (m : Metadata) (name : String) : Option Int :=
  match m.get? name with
  | some (.int n) => some n
  | _ => none

/-- What stands under a name, if anything, is a whole number of at most 64 binary digits. -/
def WholeAt (name : String) (m : Metadata) : Prop :=
  m.get? name = (m.whole? name).map Json.int ∧ ∀ n ∈ m.whole? name, n.natAbs < 2 ^ 64

/-- Lower and upper bounds. -/
inductive Side where
  | least
  | most
  deriving DecidableEq, Repr

namespace Side

variable {s : Side} {bound a b x : Int}

/-- The names of the bounds of a side. -/
def names : Side → List String
  | least => [minLength, rangeMin]
  | most => [maxLength, rangeMax]

/-- How bounds of a side are merged. -/
def policy : Side → Policy
  | least => .larger
  | most => .smaller

theorem policyOf_eq {name : String} (h : name ∈ s.names) : policyOf name = s.policy := by
  cases s <;> simp only [names, List.mem_cons, List.not_mem_nil, or_false] at h <;>
    rcases h with rfl | rfl <;> rfl

/-- A number keeps a bound. A bound keeps another one if it is as strict. -/
def Within : Side → Int → Int → Prop
  | least, bound, x => bound ≤ x
  | most, bound, x => x ≤ bound

instance (s : Side) (bound x : Int) : Decidable (s.Within bound x) := by
  cases s <;> exact inferInstanceAs (Decidable (_ ≤ _))

theorem within_refl (s : Side) (x : Int) : s.Within x x := by
  cases s <;> exact Int.le_refl x

theorem Within.trans (hab : s.Within a b) (hbx : s.Within b x) : s.Within a x := by
  cases s with
  | least => exact Int.le_trans hab hbx
  | most => exact Int.le_trans hbx hab

theorem Within.antisymm (hab : s.Within a b) (hba : s.Within b a) : a = b := by
  cases s with
  | least => exact Int.le_antisymm hab hba
  | most => exact Int.le_antisymm hba hab

theorem within_total (s : Side) (a b : Int) : s.Within a b ∨ s.Within b a := by
  cases s with
  | least => exact Int.le_total a b
  | most => exact Int.le_total b a

/-- Who keeps a bound keeps it after rounding. -/
theorem Within.rounded (h : s.Within bound x) : s.Within (nearest bound) (nearest x) := by
  cases s <;> exact Number.nearest_mono h

/-- Who keeps a bound after rounding, and is not rounded to the bound itself, keeps it. -/
theorem Within.of_rounded (h : s.Within (nearest bound) (nearest x))
    (hne : nearest bound ≠ nearest x) : s.Within bound x := by
  rcases s.within_total bound x with hkept | hbroken
  · exact hkept
  · exact absurd (h.antisymm hbroken.rounded) hne

/-- The bound that a merge keeps: the older one unless the newer is stricter after rounding. -/
def stricter? (s : Side) : Option Int → Option Int → Option Int
  | some old, some new => some (if s.Within (nearest new) (nearest old) then old else new)
  | some old, none => some old
  | none, new => new

theorem combine_int (ha : a.natAbs < 2 ^ 64) (hb : b.natAbs < 2 ^ 64) :
    s.policy.combine (.int a) (.int b)
      = .int (if s.Within (nearest b) (nearest a) then a else b) := by
  cases s with
  | least =>
    have hle := Number.orderKey_ofInt_le_iff hb ha
    simp only [policy, Policy.combine, stricter, Json.asFloat?, Within, hle, decide_eq_true_eq]
    exact (apply_ite Json.int _ _ _).symm
  | most =>
    have hle := Number.orderKey_ofInt_le_iff ha hb
    simp only [policy, Policy.combine, stricter, Json.asFloat?, Within, hle, decide_eq_true_eq]
    exact (apply_ite Json.int _ _ _).symm

theorem mem_stricter? {old new : Option Int} {kept : Int} (h : kept ∈ s.stricter? old new) :
    kept ∈ old ∨ kept ∈ new := by
  cases old with
  | none => exact .inr h
  | some a =>
    cases new with
    | none => exact .inl h
    | some b =>
      simp only [stricter?, Option.mem_some_iff] at h ⊢
      split at h
      · exact .inl h
      · exact .inr h

/-- After rounding the bound that is kept is as strict as both. -/
theorem within_stricter? {old new : Option Int} {kept : Int} (h : kept ∈ s.stricter? old new) :
    (∀ bound ∈ old, s.Within (nearest bound) (nearest kept)) ∧
      ∀ bound ∈ new, s.Within (nearest bound) (nearest kept) := by
  cases old with
  | none =>
    cases h
    simp [within_refl]
  | some a =>
    cases new with
    | none =>
      cases h
      simp [within_refl]
    | some b =>
      simp only [stricter?, Option.mem_some_iff] at h ⊢
      split at h
      · next holder =>
        subst h
        exact ⟨fun _ h => h ▸ s.within_refl _, fun _ h => h ▸ holder⟩
      · next hnewer =>
        subst h
        have hold := (s.within_total (nearest a) (nearest b)).resolve_right hnewer
        exact ⟨fun _ h => h ▸ hold, fun _ h => h ▸ s.within_refl _⟩

theorem stricter?_eq_none {old new : Option Int} (h : s.stricter? old new = none) :
    old = none ∧ new = none := by
  cases old with
  | none => exact ⟨rfl, h⟩
  | some a => cases new <;> cases h

end Side

section

variable {s : Side} {name : String}

/-! ### One merge -/

theorem whole?_of_get? {m : Metadata} {bound : Option Int}
    (h : m.get? name = bound.map Json.int) : m.whole? name = bound := by
  rw [whole?, h]
  cases bound <;> rfl

/-- The bound that one merge keeps. -/
theorem get?_merge_whole (hname : name ∈ s.names) {m n : Metadata}
    (hm : WholeAt name m) (hn : WholeAt name n) :
    (merge m n).get? name = (s.stricter? (m.whole? name) (n.whole? name)).map Json.int := by
  obtain ⟨hold, holdSize⟩ := hm
  obtain ⟨hnew, hnewSize⟩ := hn
  rw [get?_merge, hold, hnew]
  cases hm : m.whole? name with
  | none => cases n.whole? name <;> rfl
  | some a =>
    cases hn : n.whole? name with
    | none => rfl
    | some b =>
      show some ((policyOf name).combine (.int a) (.int b)) = _
      rw [Side.policyOf_eq hname, Side.combine_int (holdSize a hm) (hnewSize b hn)]
      rfl

theorem whole?_merge (hname : name ∈ s.names) {m n : Metadata}
    (hm : WholeAt name m) (hn : WholeAt name n) :
    (merge m n).whole? name = s.stricter? (m.whole? name) (n.whole? name) :=
  whole?_of_get? (get?_merge_whole hname hm hn)

theorem WholeAt.merge (hname : name ∈ s.names) {m n : Metadata}
    (hm : WholeAt name m) (hn : WholeAt name n) : WholeAt name (merge m n) := by
  constructor
  · rw [get?_merge_whole hname hm hn, whole?_merge hname hm hn]
  · intro kept hkept
    rw [whole?_merge hname hm hn] at hkept
    rcases Side.mem_stricter? hkept with h | h
    · exact hm.2 kept h
    · exact hn.2 kept h

/-! ### All merges -/

/-- A bound stands for those of some metadata: it is one of them, there is one if there is one
of them, and after rounding it is as strict as all of them. -/
structure Side.StandsFor (s : Side) (name : String) (maps : List Metadata)
    (merged : Option Int) : Prop where
  mem : ∀ kept ∈ merged, ∃ m ∈ maps, kept ∈ m.whole? name
  eq_none : merged = none → ∀ m ∈ maps, m.whole? name = none
  within : ∀ kept ∈ merged, ∀ m ∈ maps, ∀ bound ∈ m.whole? name,
    s.Within (nearest bound) (nearest kept)

theorem Side.StandsFor.snoc {maps : List Metadata} {merged : Option Int}
    (h : s.StandsFor name maps merged) (m : Metadata) :
    s.StandsFor name (maps ++ [m]) (s.stricter? merged (m.whole? name)) where
  mem kept hkept := by
    rcases Side.mem_stricter? hkept with hold | hnew
    · obtain ⟨n, hn, hmem⟩ := h.mem kept hold
      exact ⟨n, List.mem_append_left _ hn, hmem⟩
    · exact ⟨m, List.mem_append_right _ (List.mem_singleton_self m), hnew⟩
  eq_none hnone n hn := by
    obtain ⟨hold, hnew⟩ := Side.stricter?_eq_none hnone
    rcases List.mem_append.1 hn with hn | hn
    · exact h.eq_none hold n hn
    · rw [List.mem_singleton.1 hn, hnew]
  within kept hkept n hn bound hbound := by
    obtain ⟨hold, hnew⟩ := Side.within_stricter? hkept
    rcases List.mem_append.1 hn with hn | hn
    · cases merged with
      | none => rw [h.eq_none rfl n hn] at hbound; cases hbound
      | some k => exact (h.within k rfl n hn bound hbound).trans (hold k rfl)
    · rw [List.mem_singleton.1 hn] at hbound
      exact hnew bound hbound

/-- The bound of merged metadata stands for those of all metadata. -/
theorem standsFor_mergeAll (hname : name ∈ s.names) {maps : List Metadata}
    (hmaps : ∀ m ∈ maps, WholeAt name m) :
    WholeAt name (mergeAll maps) ∧ s.StandsFor name maps ((mergeAll maps).whole? name) := by
  -- The last metadata is merged last, so the induction takes it off.
  induction maps using List.reverseRecOn with
  | nil =>
    have hnone : (mergeAll []).whole? name = none := rfl
    refine ⟨⟨rfl, ?_⟩, ⟨?_, fun _ m hm => absurd hm List.not_mem_nil, ?_⟩⟩ <;> simp [hnone]
  | append_singleton maps m ih =>
    obtain ⟨hwhole, hstands⟩ := ih fun n hn => hmaps n (List.mem_append_left _ hn)
    have hm := hmaps m (List.mem_append_right _ (List.mem_singleton_self m))
    rw [mergeAll_snoc, whole?_merge hname hwhole hm]
    exact ⟨hwhole.merge hname hm, hstands.snoc m⟩

/-! ### What merged bounds admit -/

/-- A number keeps the bound under a name, if there is one. -/
def Side.Admits (s : Side) (name : String) (m : Metadata) (x : Int) : Prop :=
  ∀ bound ∈ m.whole? name, s.Within bound x

/-- A number keeps the bound under a name after rounding. -/
def Side.AdmitsRounded (s : Side) (name : String) (m : Metadata) (x : Int) : Prop :=
  ∀ bound ∈ m.whole? name, s.Within (nearest bound) (nearest x)

/-- The bounds of different metadata become different floating point numbers, or are the same. -/
def Apart (name : String) (maps : List Metadata) : Prop :=
  ∀ m ∈ maps, ∀ n ∈ maps, ∀ a ∈ m.whole? name, ∀ b ∈ n.whole? name, nearest a = nearest b → a = b

theorem apart_of_le {maps : List Metadata}
    (h : ∀ m ∈ maps, ∀ bound ∈ m.whole? name, bound.natAbs ≤ 2 ^ 53) : Apart name maps := by
  intro m hm n hn a ha b hb hsame
  rwa [Number.nearest_eq_self (h m hm a ha), Number.nearest_eq_self (h n hn b hb)] at hsame

namespace Side.StandsFor

variable {maps : List Metadata} {merged : Metadata}
  (h : s.StandsFor name maps (merged.whole? name))
include h

theorem eq_none_iff : merged.whole? name = none ↔ ∀ m ∈ maps, m.whole? name = none := by
  refine ⟨h.eq_none, fun hnone => Option.eq_none_iff_forall_not_mem.2 fun kept hkept => ?_⟩
  obtain ⟨m, hm, hmem⟩ := h.mem kept hkept
  rw [hnone m hm] at hmem
  cases hmem

theorem admits {x : Int} (hx : ∀ m ∈ maps, s.Admits name m x) : s.Admits name merged x := by
  intro kept hkept
  obtain ⟨m, hm, hmem⟩ := h.mem kept hkept
  exact hx m hm kept hmem

theorem admitsRounded_iff (x : Int) :
    s.AdmitsRounded name merged x ↔ ∀ m ∈ maps, s.AdmitsRounded name m x := by
  constructor
  · intro hx m hm bound hbound
    cases hmerged : merged.whole? name with
    | none => rw [h.eq_none hmerged m hm] at hbound; cases hbound
    | some kept => exact (h.within kept hmerged m hm bound hbound).trans (hx kept hmerged)
  · intro hx kept hkept
    obtain ⟨m, hm, hmem⟩ := h.mem kept hkept
    exact hx m hm kept hmem

/-- The merged bound is exact just when none that is rounded like it is stricter. -/
theorem admits_iff_iff :
    (∀ x, s.Admits name merged x ↔ ∀ m ∈ maps, s.Admits name m x) ↔
      ∀ kept ∈ merged.whole? name, ∀ m ∈ maps, ∀ bound ∈ m.whole? name,
        nearest bound = nearest kept → s.Within bound kept := by
  constructor
  · -- The kept bound itself, as a number, keeps all bounds.
    intro hexact kept hkept m hm bound hbound _
    have hself : s.Admits name merged kept := by
      intro k hk
      rw [Option.mem_unique hk hkept]
      exact s.within_refl kept
    exact (hexact kept).1 hself m hm bound hbound
  · refine fun hseen x => ⟨fun hx m hm bound hbound => ?_, h.admits⟩
    cases hmerged : merged.whole? name with
    | none => rw [h.eq_none hmerged m hm] at hbound; cases hbound
    | some kept =>
      -- A bound that is rounded like the kept one is weaker by assumption, any other by rounding.
      have hstrict : s.Within bound kept := by
        by_cases hsame : nearest bound = nearest kept
        · exact hseen kept hmerged m hm bound hbound hsame
        · exact (h.within kept hmerged m hm bound hbound).of_rounded hsame
      exact hstrict.trans (hx kept hmerged)

theorem exact_of_apart (hapart : Apart name maps) (x : Int) :
    s.Admits name merged x ↔ ∀ m ∈ maps, s.Admits name m x := by
  refine h.admits_iff_iff.2 (fun kept hkept m hm bound hbound hsame => ?_) x
  obtain ⟨n, hn, hmem⟩ := h.mem kept hkept
  rw [hapart m hm n hn bound hbound kept hmem hsame]
  exact s.within_refl kept

end Side.StandsFor

/-- Bounds that admit the same numbers are the same. -/
theorem whole?_eq_of_admits_iff {m n : Metadata}
    (hnone : m.whole? name = none ↔ n.whole? name = none)
    (h : ∀ x, s.Admits name m x ↔ s.Admits name n x) : m.whole? name = n.whole? name := by
  cases hm : m.whole? name with
  | none => exact (hnone.1 hm).symm
  | some a =>
    cases hn : n.whole? name with
    | none => rw [hnone.2 hn] at hm; cases hm
    | some b =>
      have hself : ∀ {k : Metadata} {c : Int}, k.whole? name = some c → s.Admits name k c := by
        intro k c hk bound hbound
        rw [Option.mem_unique hbound hk]
        exact s.within_refl c
      have hba := (h a).1 (hself hm) b hn
      have hab := (h b).2 (hself hn) a hm
      rw [hab.antisymm hba]

/-- A number that keeps the bounds of all metadata keeps the merged one, and after rounding it
is the other way round as well. So the merged bound is exact just when, of the bounds that become
the same floating point number, none is stricter than the one that is kept. It is exact, and the
same for every order of the metadata, if different bounds become different floating point
numbers; bounds up to `2 ^ 53` in size do. -/
theorem mergeAll_admits_iff (hname : name ∈ s.names) {maps : List Metadata}
    (hmaps : ∀ m ∈ maps, WholeAt name m) :
    (∀ x, (∀ m ∈ maps, s.Admits name m x) → s.Admits name (mergeAll maps) x) ∧
    (∀ x, s.AdmitsRounded name (mergeAll maps) x ↔ ∀ m ∈ maps, s.AdmitsRounded name m x) ∧
    ((∀ x, s.Admits name (mergeAll maps) x ↔ ∀ m ∈ maps, s.Admits name m x) ↔
      ∀ kept ∈ (mergeAll maps).whole? name, ∀ m ∈ maps, ∀ bound ∈ m.whole? name,
        nearest bound = nearest kept → s.Within bound kept) ∧
    (Apart name maps → ∀ others : List Metadata, others.Perm maps →
      (∀ x, s.Admits name (mergeAll others) x ↔ ∀ m ∈ maps, s.Admits name m x) ∧
      (mergeAll others).get? name = (mergeAll maps).get? name) ∧
    ((∀ m ∈ maps, ∀ bound ∈ m.whole? name, bound.natAbs ≤ 2 ^ 53) → Apart name maps) := by
  obtain ⟨hwhole, hstands⟩ := standsFor_mergeAll hname hmaps
  refine ⟨fun x => hstands.admits, hstands.admitsRounded_iff, hstands.admits_iff_iff, ?_,
    apart_of_le⟩
  intro hapart others hperm
  have hmem : ∀ m, m ∈ others ↔ m ∈ maps := fun m => hperm.mem_iff
  obtain ⟨hwhole', hstands'⟩ := standsFor_mergeAll hname fun m hm => hmaps m ((hmem m).1 hm)
  have hexact : ∀ x, s.Admits name (mergeAll others) x ↔ ∀ m ∈ maps, s.Admits name m x := by
    intro x
    have hothers : Apart name others := fun m hm n hn => hapart m ((hmem m).1 hm) n ((hmem n).1 hn)
    rw [hstands'.exact_of_apart hothers x]
    exact forall_congr' fun m => imp_congr_left (hmem m)
  have hnone : (mergeAll others).whole? name = none ↔ (mergeAll maps).whole? name = none := by
    rw [hstands'.eq_none_iff, hstands.eq_none_iff]
    exact forall_congr' fun m => imp_congr_left (hmem m)
  have hbound : (mergeAll others).whole? name = (mergeAll maps).whole? name :=
    whole?_eq_of_admits_iff hnone fun x => (hexact x).trans (hstands.exact_of_apart hapart x).symm
  exact ⟨hexact, by rw [hwhole'.1, hwhole.1, hbound]⟩

/-- A least length alone. -/
def ofLeast (n : Int) : Metadata :=
  of [(minLength, .int n)]

theorem wholeAt_ofLeast {n : Int} (h : n.natAbs < 2 ^ 64) : WholeAt minLength (ofLeast n) := by
  have hbound : (ofLeast n).get? minLength = (some n).map Json.int := by
    show Keyed.find? minLength [(minLength, Json.int n)] = _
    rw [Keyed.find?_cons, if_pos rfl]
    rfl
  rw [WholeAt, whole?_of_get? hbound]
  exact ⟨hbound, fun m hm => by rwa [← Option.some_inj.1 hm]⟩

/-- Of the least lengths 3, 8 and 5 a merge keeps 8: a length of 7 is too short, in any order. -/
theorem mergeAll_admits_iff_lengths :
    minLength ∈ Side.least.names ∧
    (∀ m ∈ [ofLeast 3, ofLeast 8, ofLeast 5], WholeAt minLength m) ∧
    ¬ Side.least.Admits minLength (mergeAll [ofLeast 3, ofLeast 8, ofLeast 5]) 7 ∧
    (mergeAll [ofLeast 8, ofLeast 5, ofLeast 3]).get? minLength
      = (mergeAll [ofLeast 3, ofLeast 8, ofLeast 5]).get? minLength := by
  have hwhole : ∀ m ∈ [ofLeast 3, ofLeast 8, ofLeast 5], WholeAt minLength m := by
    simp only [List.mem_cons, List.not_mem_nil, or_false]
    rintro m (rfl | rfl | rfl) <;> exact wholeAt_ofLeast (by decide)
  have hname : minLength ∈ Side.least.names := List.mem_cons_self
  obtain ⟨-, -, -, horder, hsmall⟩ := mergeAll_admits_iff hname hwhole
  have hapart := hsmall (by decide)
  obtain ⟨hexact, -⟩ := horder hapart _ (List.Perm.refl _)
  refine ⟨hname, hwhole, fun hadmits => ?_, (horder hapart _ ?_).2⟩
  · exact absurd ((hexact 7).1 hadmits (ofLeast 8) (by simp) 8 (by decide)) (by decide)
  · exact List.perm_append_singleton (ofLeast 3) [ofLeast 8, ofLeast 5]

/-- Of two least lengths that become the same floating point number the first is kept, though
the second is stricter: a length of `2 ^ 53` keeps the merged bound and not both. In the other
order the stricter one is kept. -/
theorem mergeAll_admits_too_much :
    (mergeAll [ofLeast 9007199254740992, ofLeast 9007199254740993]).whole? minLength
      = some 9007199254740992 ∧
    (mergeAll [ofLeast 9007199254740993, ofLeast 9007199254740992]).whole? minLength
      = some 9007199254740993 ∧
    ¬ ∀ x, Side.least.Admits minLength
        (mergeAll [ofLeast 9007199254740992, ofLeast 9007199254740993]) x ↔
      ∀ m ∈ [ofLeast 9007199254740992, ofLeast 9007199254740993],
        Side.least.Admits minLength m x := by
  refine ⟨by decide +kernel, by decide +kernel, fun hexact => ?_⟩
  have hadmits : Side.least.Admits minLength
      (mergeAll [ofLeast 9007199254740992, ofLeast 9007199254740993]) 9007199254740992 := by
    unfold Side.Admits
    decide +kernel
  have hbroken := (hexact 9007199254740992).1 hadmits (ofLeast 9007199254740993) (by simp)
    9007199254740993 (by decide +kernel)
  exact absurd hbroken (by decide)

end

end FieldGuard.Metadata
