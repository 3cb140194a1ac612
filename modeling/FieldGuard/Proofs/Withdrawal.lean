import FieldGuard.Proofs.AttachedValidators

/-!
# `FieldGuard.Proofs.Withdrawal`: what is left of a component when metadata is withdrawn

A component is rendered with some metadata, and at last with none. Everything that the renders
have attached is gone then. Three things of the page author are not always what they were. The
attribute for the greatest length has one place for the author's value and for the written one:
the author's is lost as soon as another one is written over it, and what was written is dropped.
The two flags for required components are set, and never taken back.

The attributes are followed through the renders by what they are without the written one
(`authored`): a render either leaves these alone or takes the author's length out of them.

* `authored_configureEach`: the attributes of the author after any renders;
* `withdraw_restores_iff`: what is restored in any case, and that the component is the
  author's again just when the renders have not touched what the author had set
  (`LeavesAuthor`);
* `withdraw_loses_maxlength`: a greatest length that is lost.
-/

set_option autoImplicit false

namespace FieldGuard

namespace Initializer

/-! ### Attributes -/

/-- The attributes of a component without what the last render has written. -/
def authored (c : Component) : Dict Json :=
  withoutWritten (c.attached.get? lengthSlot) c.attributes

theorem lengthValidator?_of_maximum {m : Metadata} {most : UInt64}
    (h : bound? m Metadata.maxLength = some most) :
    lengthValidator? m = some (.length (bound? m Metadata.minLength) (some most)) := by
  rw [lengthValidator?, h]
  rfl

/-- A render takes the attributes of the author, and writes the greatest length if it has one. -/
theorem attributes_configureAll (m : Metadata) (c : Component) :
    (configureAll standard m c).attributes
      = match bound? m Metadata.maxLength with
        | some most => (authored c).insert maxlengthAttribute (.int most.toNat)
        | none => authored c := by
  rw [configureAll_eq]
  show attributesAfter m c = _
  rw [attributesAfter, dropMaxlength_eq, ← authored]
  cases hmost : bound? m Metadata.maxLength with
  | some most => rw [lengthValidator?_of_maximum hmost]
  | none =>
    unfold lengthValidator?
    rw [hmost]
    split
    · next heq =>
      split at heq
      · cases heq
      · cases heq
    · rfl

/-- A render leaves the attributes of the author alone, but for the greatest length: where it
writes one, the author's is gone. -/
theorem authored_configureAll (m : Metadata) (c : Component) :
    authored (configureAll standard m c)
      = if (bound? m Metadata.maxLength).isSome then (authored c).erase maxlengthAttribute
        else authored c := by
  rw [authored, (configured_configureAll m c).length, attributes_configureAll]
  cases hmost : bound? m Metadata.maxLength with
  | some most =>
    rw [lengthValidator?_of_maximum hmost, withoutWritten, Dict.get?_insert_self,
      if_pos (Json.some_int_beq_self most.toNat), Dict.erase_insert_self]
    rfl
  | none =>
    unfold lengthValidator?
    rw [hmost]
    split <;> rfl

/-- After any renders the attributes of the author are there, without the greatest length if one
of the renders had one. -/
theorem authored_configureEach (ms : List Metadata) (c : Component) :
    authored (configureEach ms c)
      = if ms.any (fun m => (bound? m Metadata.maxLength).isSome) then
          (authored c).erase maxlengthAttribute
        else authored c := by
  induction ms generalizing c with
  | nil => rfl
  | cons m rest ih =>
    rw [configureEach_cons, ih, authored_configureAll, List.any_cons]
    cases (bound? m Metadata.maxLength).isSome <;>
      cases rest.any (fun m => (bound? m Metadata.maxLength).isSome) <;>
        simp [Dict.erase_erase_self]

/-! ### The weak flag -/

/-- The weak flag is left alone where there is an explicit one. -/
theorem weaklyRequired_of_explicit {c : Component} (h : c.required ≠ none) (ms : List Metadata) :
    (configureEach ms c).weaklyRequired = c.weaklyRequired := by
  induction ms generalizing c with
  | nil => rfl
  | cons m rest ih =>
    -- A strong requirement makes another explicit flag of it.
    have hexplicit : requiredAfter m c ≠ none := by
      unfold requiredAfter
      split
      · exact Option.some_ne_none true
      · exact h
    rw [configureEach_cons, configureAll_eq, ih hexplicit, weaklyRequiredAfter,
      Option.isNone_eq_false_iff.2 (Option.isSome_iff_ne_none.2 h), Bool.and_false, Bool.or_false]

/-- Without explicit flag and strong requirements, each weak requirement sets it. -/
theorem weaklyRequired_of_weak {c : Component} (h : c.required = none) {ms : List Metadata}
    (hweak : ∀ m ∈ ms, m.flag Metadata.required = false) :
    (configureEach ms c).weaklyRequired
      = (c.weaklyRequired || ms.any (·.flag Metadata.weakRequired)) := by
  induction ms generalizing c with
  | nil => exact (Bool.or_false _).symm
  | cons m rest ih =>
    have hm := hweak m List.mem_cons_self
    have hunset : requiredAfter m c = none := by
      rw [requiredAfter, hm, h]
      rfl
    rw [configureEach_cons, configureAll_eq,
      ih hunset fun m' hm' => hweak m' (List.mem_cons_of_mem _ hm'), weaklyRequiredAfter, hm, h,
      List.any_cons]
    simp [Bool.or_assoc]

end Initializer

open Initializer

/-- The metadata asks for nothing that is stored where the author has set something else. -/
structure LeavesAuthor (ms : List Metadata) (c : Component) : Prop where
  /-- Where there is an attribute for the greatest length, no metadata has a greatest length. -/
  maxlength : c.attributes.get? maxlengthAttribute ≠ none →
    ∀ m ∈ ms, ∀ n : UInt64, m.get? Metadata.maxLength ≠ some (.int n.toNat)
  /-- With a strong requirement the author requires a value too. -/
  strong : ∀ m ∈ ms, m.flag Metadata.required = true → c.required = some true
  /-- With a weak one the author has decided, or the component is weakly required anyway. -/
  weak : ∀ m ∈ ms, m.flag Metadata.weakRequired = true →
    c.required ≠ none ∨ c.weaklyRequired = true

namespace Initializer

variable (ms : List Metadata) (c : Component)

/-- Nothing is requested without metadata. -/
theorem not_requested_empty (v : HostValidator) : ¬ Requested ∅ v := by
  intro h
  have hnone : ∀ name text : String, ¬ Metadata.Lists ∅ name text := by
    rintro name text (h | ⟨items, h, -⟩) <;> cases h
  cases h with
  | length least most hleast hmost hrestricts =>
    rcases hrestricts with ⟨n, hn⟩ | ⟨n, hn, -⟩
    · cases (hmost n).1 hn
    · cases (hleast n).1 hn
  | wholeRange least most hleast hmost hgiven =>
    rw [Option.map_eq_none_iff.1 hleast.symm, Option.map_eq_none_iff.1 hmost.symm] at hgiven
    simp at hgiven
  | decimalRange bound hgiven hdecimal =>
    rcases hgiven with hgiven | hgiven <;> cases hgiven
  | regex pattern hlisted => exact hnone _ _ hlisted
  | custom id hlisted => exact hnone _ _ hlisted
  | email hflag => cases hflag

variable {c}

theorem attached_withdrawn (h : c.attached = ∅) : (configureEach (ms ++ [∅]) c).attached = ∅ := by
  have hkeyed : SlotKeyed c.attached := by
    rw [h]
    exact SlotKeyed.empty
  refine Dict.ext_get? fun slot => Option.eq_none_iff_forall_ne_some.2 fun v hget => ?_
  exact not_requested_empty v ((attached_iff_requested hkeyed ms ∅ slot v).1 hget).2

theorem attributes_withdrawn (h : c.attached = ∅) :
    (configureEach (ms ++ [∅]) c).attributes
      = if ms.any (fun m => (bound? m Metadata.maxLength).isSome) then
          c.attributes.erase maxlengthAttribute
        else c.attributes := by
  have hauthored : authored c = c.attributes := by
    rw [authored, h]
    rfl
  rw [configureEach_append, ← hauthored, ← authored_configureEach]
  exact attributes_configureAll ∅ (configureEach ms c)

/-- Two flags and the attributes are all that may differ from what the author has made. -/
theorem withdrawn_eq (h : c.attached = ∅) :
    configureEach (ms ++ [∅]) c
      = { c with
          required := (configureEach (ms ++ [∅]) c).required
          weaklyRequired := (configureEach (ms ++ [∅]) c).weaklyRequired
          attributes := (configureEach (ms ++ [∅]) c).attributes } := by
  have hattached : (configureEach (ms ++ [∅]) c).attached = c.attached :=
    (attached_withdrawn ms h).trans h.symm
  obtain ⟨required, weaklyRequired, attached, attributes, hframe⟩ :=
    frame_configureEach (ms ++ [∅]) c
  rw [hframe] at hattached ⊢
  have hsame : attached = c.attached := hattached
  rw [hsame]

variable {ms}

theorem attributes_restored_iff (h : c.attached = ∅) :
    (configureEach (ms ++ [∅]) c).attributes = c.attributes ↔
      (c.attributes.get? maxlengthAttribute ≠ none →
        ∀ m ∈ ms, ∀ n : UInt64, m.get? Metadata.maxLength ≠ some (.int n.toNat)) := by
  have hreads : ∀ m : Metadata, (bound? m Metadata.maxLength).isSome = true ↔
      ∃ n : UInt64, m.get? Metadata.maxLength = some (.int n.toNat) := fun m =>
    Option.isSome_iff_exists.trans (exists_congr fun n => reads_bound? m Metadata.maxLength n)
  rw [attributes_withdrawn ms h]
  split
  · next hany =>
    -- An attribute is lost just when there is one.
    obtain ⟨m, hm, hwritten⟩ := List.any_eq_true.1 hany
    obtain ⟨n, hn⟩ := (hreads m).1 hwritten
    rw [Dict.erase_eq_self_iff]
    constructor
    · exact fun hnone hset => absurd hnone hset
    · exact fun hkept => Decidable.byContradiction fun hset => hkept hset m hm n hn
  · next hany =>
    refine ⟨fun _ _ m hm n hn => hany ?_, fun _ => rfl⟩
    exact List.any_eq_true.2 ⟨m, hm, (hreads m).2 ⟨n, hn⟩⟩

theorem required_restored_iff : (configureEach (ms ++ [∅]) c).required = c.required ↔
    ∀ m ∈ ms, m.flag Metadata.required = true → c.required = some true := by
  have hwithdrawn : (configureEach (ms ++ [∅]) c).required = (configureEach ms c).required := by
    rw [configureEach_append]
    exact required_configureEach [∅] (configureEach ms c)
  rw [hwithdrawn, required_configureEach]
  split
  · next hany =>
    obtain ⟨m, hm, hflag⟩ := List.any_eq_true.1 hany
    exact ⟨fun hsame _ _ _ => hsame.symm, fun hstrong => (hstrong m hm hflag).symm⟩
  · next hany =>
    exact ⟨fun _ m hm hflag => absurd (List.any_eq_true.2 ⟨m, hm, hflag⟩) hany, fun _ => rfl⟩

/-- Where no strong requirement touches the explicit flag, the weak one is the author's again if
nothing has set it or it was set before. -/
theorem weaklyRequired_restored_iff
    (hstrong : ∀ m ∈ ms, m.flag Metadata.required = true → c.required = some true) :
    (configureEach (ms ++ [∅]) c).weaklyRequired = c.weaklyRequired ↔
      ∀ m ∈ ms, m.flag Metadata.weakRequired = true →
        c.required ≠ none ∨ c.weaklyRequired = true := by
  have hwithdrawn : (configureEach (ms ++ [∅]) c).weaklyRequired
      = (configureEach ms c).weaklyRequired := by
    rw [configureEach_append]
    show (configureAll standard ∅ (configureEach ms c)).weaklyRequired = _
    rw [configureAll_eq]
    exact Bool.or_false _
  rw [hwithdrawn]
  cases hauthor : c.required with
  | some flag =>
    have hexplicit : c.required ≠ none := by
      rw [hauthor]
      exact Option.some_ne_none flag
    exact ⟨fun _ _ _ _ => .inl (Option.some_ne_none flag),
      fun _ => weaklyRequired_of_explicit hexplicit ms⟩
  | none =>
    -- A strong requirement would have set the explicit flag, so there is none.
    have hnone : ∀ m ∈ ms, m.flag Metadata.required = false := fun m hm =>
      Bool.eq_false_iff.2 fun hflag => by
        rw [hauthor] at hstrong
        cases hstrong m hm hflag
    rw [weaklyRequired_of_weak hauthor hnone]
    cases c.weaklyRequired with
    | true => simp
    | false => simp

end Initializer

/-- Metadata is withdrawn from a component that nothing was attached to. Take any metadata, one
after the other, and at last none.

* Nothing is attached then, and nothing but the two flags for required components and the
  attributes may differ from what the author has made.
* Of the attributes, it may be the one for the greatest length.
* The component is the author's again just when the metadata leaves alone what the author has
  set. -/
theorem withdraw_restores_iff (ms : List Metadata) (c : Component) (h : c.attached = ∅) :
    let c' := configureEach (ms ++ [∅]) c
    (∃ required weaklyRequired attributes,
      c' = { c with required, weaklyRequired, attributes }) ∧
    (∀ name, name ≠ maxlengthAttribute →
      c'.attributes.get? name = c.attributes.get? name) ∧
    (c' = c ↔ LeavesAuthor ms c) := by
  intro c'
  refine ⟨⟨_, _, _, withdrawn_eq ms h⟩, ?_, ?_, ?_⟩
  · intro name hname
    show (configureEach (ms ++ [∅]) c).attributes.get? name = _
    rw [attributes_withdrawn ms h]
    split
    · rw [Dict.get?_erase, if_neg (Ne.symm hname)]
    · rfl
  · intro hsame
    have hstrong := required_restored_iff.1 (congrArg Component.required hsame)
    exact
      { maxlength := (attributes_restored_iff h).1 (congrArg Component.attributes hsame)
        strong := hstrong
        weak := (weaklyRequired_restored_iff hstrong).1
          (congrArg Component.weaklyRequired hsame) }
  · intro hleaves
    refine (withdrawn_eq ms h).trans ?_
    rw [required_restored_iff.2 hleaves.strong, (attributes_restored_iff h).2 hleaves.maxlength,
      (weaklyRequired_restored_iff hleaves.strong).2 hleaves.weak]

/-- A component for a postal code of at most eight characters. -/
def zipField : Component :=
  { clientId := "form:zip", required := some false,
    attributes := Dict.ofList [(maxlengthAttribute, .int 8)] }

/-- A least length, a pattern and a weak requirement leave no trace. -/
theorem withdraw_restores_iff_zip :
    let short : Metadata := Dict.ofList [("min_length", .int 2), ("weak_required", .bool true)]
    let plain : Metadata := Dict.ofList [("pattern", .string "a+")]
    zipField.attached = ∅ ∧ configureEach [short, plain, ∅] zipField = zipField := by
  intro short plain
  have hnone : ∀ m ∈ [short, plain], m.get? Metadata.maxLength = none ∧
      m.flag Metadata.required = false := by decide +kernel
  have hleaves : LeavesAuthor [short, plain] zipField :=
    { maxlength := fun _ m hm n hget => by
        rw [(hnone m hm).1] at hget
        cases hget
      strong := fun m hm hflag => by
        rw [(hnone m hm).2] at hflag
        cases hflag
      weak := fun _ _ _ => .inl (Option.some_ne_none false) }
  obtain ⟨-, -, hrestored⟩ := withdraw_restores_iff [short, plain] zipField rfl
  exact ⟨rfl, hrestored.2 hleaves⟩

/-- Metadata has the greatest length that the author has set too. When it is withdrawn, the
attribute is taken for one that a render has written. -/
theorem withdraw_loses_maxlength :
    let long : Metadata := Dict.ofList [("max_length", .int 8)]
    let c' := configureEach [long, ∅] zipField
    zipField.attached = ∅ ∧
    (zipField.attributes.get? maxlengthAttribute).bind Json.asUInt64? = some 8 ∧
    c'.attributes.get? maxlengthAttribute = none ∧ c' ≠ zipField := by
  intro long c'
  have hset : (zipField.attributes.get? maxlengthAttribute).bind Json.asUInt64? = some 8 := by
    decide +kernel
  have hlost : (c'.attributes.get? maxlengthAttribute).isNone = true := by decide +kernel
  refine ⟨rfl, hset, Option.isNone_iff_eq_none.1 hlost, fun hsame => ?_⟩
  rw [hsame, Option.isNone_iff_eq_none] at hlost
  rw [hlost] at hset
  cases hset

end FieldGuard
