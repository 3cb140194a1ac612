import FieldGuard.Proofs.Configuration

/-!
# `FieldGuard.Proofs.AttachedValidators`: what is attached after any renders

A component is rendered many times, each time with the metadata of that moment. The validators
that are attached after the last time are those that the last metadata requests, each in its
slot, and no others. What earlier metadata has requested leaves no trace among them.

`Requested` reads the validators off the metadata as it is written, name by name. It does not
mention how the initializers go about attaching them. The one thing they rely on is that
validators stand in their own slots before (`SlotKeyed`), as attaching puts them: a length
validator in a foreign slot would be found by nobody and stay for ever.

* `SlotKeyed.configureAll`: validators in their own slots stay there;
* `attached_iff_of_configured`: what is attached to a configured component;
* `attached_configureEach`: what is attached after any renders, with the attribute for the
  greatest length, and what the renders leave to the page author.
-/

set_option autoImplicit false

namespace FieldGuard

/-! ### What metadata says -/

namespace Metadata

/-- The text is the one under a name, or one of those in the array there. -/
def Lists (m : Metadata) (name text : String) : Prop :=
  m.get? name = some (.string text) ∨
    ∃ items, m.get? name = some (.array items) ∧ .string text ∈ items

/-- The number, if any, is the one that the value under a name is. -/
def Reads (m : Metadata) (name : String) (number : Option UInt64) : Prop :=
  ∀ n : UInt64, number = some n ↔ m.get? name = some (.int n.toNat)

theorem mem_texts {m : Metadata} {name text : String} :
    text ∈ m.texts name ↔ m.Lists name text := by
  have hstring : ∀ json : Json, json.asString? = some text ↔ json = .string text := by
    intro json
    cases json <;> simp [Json.asString?]
  unfold texts Lists
  cases hget : m.get? name with
  | none => simp
  | some json =>
    cases json with
    | array items => simp [List.mem_filterMap, hstring]
    | string item => simp [eq_comm]
    | _ => simp

theorem flag_iff {m : Metadata} {name : String} :
    m.flag name = true ↔ m.get? name = some (.bool true) := by
  unfold flag
  cases hget : m.get? name with
  | none => simp
  | some json => cases json <;> simp [Json.asBool?]

end Metadata

/-- The validators that metadata requests. -/
inductive Requested (m : Metadata) : HostValidator → Prop where
  /-- A length validator for the bounds that are whole numbers. A zero minimum alone restricts
  nothing. -/
  | length (least most : Option UInt64) (hleast : m.Reads Metadata.minLength least)
      (hmost : m.Reads Metadata.maxLength most)
      (hrestricts : (∃ n, most = some n) ∨ ∃ n, least = some n ∧ n ≠ 0) :
      Requested m (.length least most)
  /-- A range validator for whole numbers, if all bounds that are given are such. -/
  | wholeRange (least most : Option Int64)
      (hleast : m.get? Metadata.rangeMin = least.map fun n => .int n.toInt)
      (hmost : m.get? Metadata.rangeMax = most.map fun n => .int n.toInt)
      (hgiven : least ≠ none ∨ most ≠ none) :
      Requested m (.wholeRange least most)
  /-- Otherwise one for decimal numbers, without the bounds that are no numbers. -/
  | decimalRange (bound : Json)
      (hgiven : m.get? Metadata.rangeMin = some bound ∨ m.get? Metadata.rangeMax = some bound)
      (hdecimal : ∀ n : Int64, bound ≠ .int n.toInt) :
      Requested m (.decimalRange ((m.get? Metadata.rangeMin).bind Json.asFloat?)
        ((m.get? Metadata.rangeMax).bind Json.asFloat?))
  | regex (pattern : String) (hlisted : m.Lists Metadata.pattern pattern) :
      Requested m (.regex pattern)
  | custom (id : String) (hlisted : m.Lists Metadata.custom id) : Requested m (.custom id)
  | email (hflag : m.get? Metadata.email = some (.bool true)) : Requested m .email

namespace Initializer

/-! ### Lengths and ranges -/

section

variable {m : Metadata}

theorem reads_bound? (m : Metadata) (name : String) : m.Reads name (bound? m name) := by
  intro n
  unfold bound?
  cases hget : m.get? name with
  | none => simp
  | some json =>
    cases json with
    | int k =>
      simp only [Option.bind_some, Json.asUInt64?, Option.some.injEq, Json.int.injEq]
      constructor
      · intro h
        exact (Number.toNat_of_uint64? h).symm
      · rintro rfl
        exact Number.uint64?_toNat n
    | _ => simp [Json.asUInt64?]

/-- A value reads as one number at most. -/
theorem eq_bound?_of_reads {name : String} {number : Option UInt64} (h : m.Reads name number) :
    number = bound? m name :=
  Option.ext fun n => (h n).trans (reads_bound? m name n).symm

theorem restrictsLength_iff {least most : Option UInt64} :
    restrictsLength least most = true ↔ (∃ n, most = some n) ∨ ∃ n, least = some n ∧ n ≠ 0 := by
  unfold restrictsLength
  cases least <;> cases most <;> simp

theorem requested_of_lengthValidator? {v : HostValidator} (h : lengthValidator? m = some v) :
    Requested m v := by
  unfold lengthValidator? at h
  split at h
  · next hrestricts =>
    cases h
    exact .length _ _ (reads_bound? m _) (reads_bound? m _) (restrictsLength_iff.1 hrestricts)
  · cases h

theorem asInt64?_iff {json : Json} {n : Int64} : json.asInt64? = some n ↔ json = .int n.toInt := by
  cases json with
  | int k =>
    simp only [Json.asInt64?, Json.int.injEq]
    constructor
    · intro h
      exact (Number.toInt_of_int64? h).symm
    · rintro rfl
      exact Number.int64?_toInt n
  | _ => simp [Json.asInt64?]

/-- Whether a bound, if it is given, is a whole number. -/
def isWhole (bound : Option Json) : Bool :=
  bound.all fun json => json.asInt64?.isSome

theorem isWhole_map (number : Option Int64) :
    isWhole (number.map fun n => .int n.toInt) = true := by
  cases number with
  | none => rfl
  | some n =>
    have hn : (Json.int n.toInt).asInt64? = some n := asInt64?_iff.2 rfl
    simp [isWhole, hn]

theorem exists_of_isWhole {bound : Option Json} (h : isWhole bound = true) :
    ∃ number : Option Int64, bound = number.map fun n => .int n.toInt := by
  cases bound with
  | none => exact ⟨none, rfl⟩
  | some json =>
    obtain ⟨n, hn⟩ := Option.isSome_iff_exists.1 h
    exact ⟨some n, congrArg some (asInt64?_iff.1 hn)⟩

theorem exists_of_not_isWhole {bound : Option Json} (h : isWhole bound = false) :
    ∃ json, bound = some json ∧ ∀ n : Int64, json ≠ .int n.toInt := by
  cases bound with
  | none => cases h
  | some json =>
    refine ⟨json, rfl, ?_⟩
    rintro n rfl
    have hwhole : isWhole (some (.int n.toInt)) = true := isWhole_map (some n)
    rw [hwhole] at h
    cases h

theorem bind_asInt64?_map (number : Option Int64) :
    (number.map fun n => Json.int n.toInt).bind Json.asInt64? = number := by
  cases number with
  | none => rfl
  | some n => exact asInt64?_iff.2 rfl

theorem rangeValidator_eq (least most : Option Json) : rangeValidator least most
    = if isWhole least && isWhole most then
        .wholeRange (least.bind Json.asInt64?) (most.bind Json.asInt64?)
      else .decimalRange (least.bind Json.asFloat?) (most.bind Json.asFloat?) := rfl

theorem rangeValidator?_of_given
    (h : m.get? Metadata.rangeMin ≠ none ∨ m.get? Metadata.rangeMax ≠ none) :
    rangeValidator? m
      = some (rangeValidator (m.get? Metadata.rangeMin) (m.get? Metadata.rangeMax)) := by
  unfold rangeValidator?
  refine if_neg fun hnone => ?_
  obtain ⟨hleast, hmost⟩ := Bool.and_eq_true_iff.1 hnone
  rcases h with h | h
  · exact h (Option.isNone_iff_eq_none.1 hleast)
  · exact h (Option.isNone_iff_eq_none.1 hmost)

theorem requested_of_rangeValidator? {v : HostValidator} (h : rangeValidator? m = some v) :
    Requested m v := by
  have hgiven : m.get? Metadata.rangeMin ≠ none ∨ m.get? Metadata.rangeMax ≠ none := by
    by_cases hleast : m.get? Metadata.rangeMin = none
    · by_cases hmost : m.get? Metadata.rangeMax = none
      · rw [rangeValidator?, hleast, hmost] at h
        cases h
      · exact .inr hmost
    · exact .inl hleast
  rw [rangeValidator?_of_given hgiven, rangeValidator_eq] at h
  cases hleast : isWhole (m.get? Metadata.rangeMin) with
  | false =>
    obtain ⟨bound, hbound, hdecimal⟩ := exists_of_not_isWhole hleast
    rw [hleast] at h
    cases h
    exact .decimalRange bound (.inl hbound) hdecimal
  | true =>
    cases hmost : isWhole (m.get? Metadata.rangeMax) with
    | false =>
      obtain ⟨bound, hbound, hdecimal⟩ := exists_of_not_isWhole hmost
      rw [hleast, hmost] at h
      cases h
      exact .decimalRange bound (.inr hbound) hdecimal
    | true =>
      obtain ⟨a, ha⟩ := exists_of_isWhole hleast
      obtain ⟨b, hb⟩ := exists_of_isWhole hmost
      rw [hleast, hmost, ha, hb, bind_asInt64?_map, bind_asInt64?_map] at h
      cases h
      refine .wholeRange a b ha hb ?_
      rw [ha, hb] at hgiven
      simpa using hgiven

theorem lengthValidator?_of_requested {least most : Option UInt64}
    (h : Requested m (.length least most)) : lengthValidator? m = some (.length least most) := by
  cases h with
  | length _ _ hleast hmost hrestricts =>
    rw [lengthValidator?, ← eq_bound?_of_reads hleast, ← eq_bound?_of_reads hmost,
      if_pos (restrictsLength_iff.2 hrestricts)]

theorem rangeValidator?_of_requested_whole {least most : Option Int64}
    (h : Requested m (.wholeRange least most)) :
    rangeValidator? m = some (.wholeRange least most) := by
  cases h with
  | wholeRange _ _ hleast hmost hgiven =>
    have hsome : m.get? Metadata.rangeMin ≠ none ∨ m.get? Metadata.rangeMax ≠ none := by
      rw [hleast, hmost]
      simpa using hgiven
    rw [rangeValidator?_of_given hsome, rangeValidator_eq, hleast, hmost, isWhole_map, isWhole_map,
      bind_asInt64?_map, bind_asInt64?_map]
    rfl

theorem rangeValidator?_of_requested_decimal {least most : Option Float}
    (h : Requested m (.decimalRange least most)) :
    rangeValidator? m = some (.decimalRange least most) := by
  cases h with
  | decimalRange bound hgiven hdecimal =>
    have hsome : m.get? Metadata.rangeMin ≠ none ∨ m.get? Metadata.rangeMax ≠ none := by
      rcases hgiven with hgiven | hgiven <;> simp [hgiven]
    -- The bound that is no whole number decides which of the two validators it is.
    have hbound : isWhole (some bound) = false := by
      refine Bool.eq_false_iff.2 fun hwhole => ?_
      obtain ⟨n, hn⟩ := Option.isSome_iff_exists.1 hwhole
      exact hdecimal n (asInt64?_iff.1 hn)
    have hnot : (isWhole (m.get? Metadata.rangeMin) && isWhole (m.get? Metadata.rangeMax))
        = false := by
      rcases hgiven with hgiven | hgiven <;> simp [hgiven, hbound]
    rw [rangeValidator?_of_given hsome, rangeValidator_eq, hnot]
    rfl

end

end Initializer

/-! ### Validators in their own slots -/

/-- Every validator stands in its own slot. -/
def SlotKeyed (attached : Dict HostValidator) : Prop :=
  ∀ slot v, attached.get? slot = some v → slot = v.slot

namespace SlotKeyed

open Initializer

variable {attached : Dict HostValidator}

theorem empty : SlotKeyed ∅ := by
  intro slot v h
  cases h

theorem insert (h : SlotKeyed attached) (v : HostValidator) :
    SlotKeyed (attached.insert v.slot v) := by
  intro slot w hget
  rw [Dict.get?_insert] at hget
  split at hget
  · next hslot =>
    cases hget
    exact hslot.symm
  · exact h slot w hget

/-- Attaching a validator puts it in its own slot. -/
theorem attach {c : Component} (h : SlotKeyed c.attached) (v : HostValidator) :
    SlotKeyed (c.attach v).attached :=
  h.insert v

theorem putSlot (h : SlotKeyed attached) {slot : String} {v? : Option HostValidator}
    (hv : ∀ v, v? = some v → v.slot = slot) : SlotKeyed (putSlot slot v? attached) := by
  intro other w hget
  rw [get?_putSlot] at hget
  split at hget
  · next hslot => rw [← hslot, hv w hget]
  · exact h other w hget

theorem refill (h : SlotKeyed attached) (keeps : HostValidator → Bool)
    (vs : List HostValidator) : SlotKeyed (refill keeps vs attached) := by
  have hkept : SlotKeyed (attached.filter fun _ v => keeps v) := by
    intro slot v hget
    rw [Dict.get?_filter] at hget
    exact h slot v (Option.filter_eq_some_iff.1 hget).1
  unfold Initializer.refill
  generalize attached.filter (fun _ v => keeps v) = start at hkept
  induction vs generalizing start with
  | nil => exact hkept
  | cons v rest ih => exact ih _ (hkept.insert v)

/-- The initializers leave every validator in its own slot. -/
theorem configureAll {c : Component} (h : SlotKeyed c.attached) (m : Metadata) :
    SlotKeyed (configureAll standard m c).attached := by
  have hlength : SlotKeyed (Initializer.putSlot lengthSlot (lengthValidator? m) c.attached) :=
    h.putSlot fun v hv => by
      obtain ⟨_, _, rfl⟩ := exists_of_lengthValidator? m hv
      rfl
  have hrange : SlotKeyed (Initializer.putSlot rangeSlot (rangeValidator? m)
      (Initializer.putSlot lengthSlot (lengthValidator? m) c.attached)) :=
    hlength.putSlot fun v hv => by
      obtain ⟨_, _, rfl⟩ | ⟨_, _, rfl⟩ := exists_of_rangeValidator? m hv <;> rfl
  rw [configureAll_eq]
  exact (hrange.refill _ _).refill _ _

end SlotKeyed

/-! ### Configured components -/

namespace Initializer

/-- What is attached to a configured component is what the metadata requests. -/
theorem attached_iff_of_configured {m : Metadata} {c : Component} (h : Configured m c)
    (hkeyed : SlotKeyed c.attached) (slot : String) (v : HostValidator) :
    c.attached.get? slot = some v ↔ slot = v.slot ∧ Requested m v := by
  constructor
  · intro hget
    have hslot := hkeyed slot v hget
    refine ⟨hslot, ?_⟩
    subst hslot
    have hpattern := h.patterns.kept v.slot v hget
    have hnamed := h.named.kept v.slot v hget
    cases v with
    | length least most => exact requested_of_lengthValidator? (h.length.symm.trans hget)
    | wholeRange least most => exact requested_of_rangeValidator? (h.range.symm.trans hget)
    | decimalRange least most => exact requested_of_rangeValidator? (h.range.symm.trans hget)
    | regex pattern => exact .regex pattern (Metadata.mem_texts.1 (List.contains_iff_mem.1 hpattern))
    | custom id => exact .custom id (Metadata.mem_texts.1 (List.contains_iff_mem.1 hnamed))
    | email => exact .email (Metadata.flag_iff.1 hnamed)
  · rintro ⟨rfl, hrequested⟩
    cases v with
    | length least most => exact h.length.trans (lengthValidator?_of_requested hrequested)
    | wholeRange least most => exact h.range.trans (rangeValidator?_of_requested_whole hrequested)
    | decimalRange least most =>
      exact h.range.trans (rangeValidator?_of_requested_decimal hrequested)
    | regex pattern =>
      cases hrequested with
      | regex _ hlisted =>
        exact h.patterns.there _ (List.mem_map_of_mem (Metadata.mem_texts.2 hlisted))
    | custom id =>
      cases hrequested with
      | custom _ hlisted =>
        refine h.named.there _ (List.mem_append_left _ ?_)
        exact List.mem_map_of_mem (Metadata.mem_texts.2 hlisted)
    | email =>
      cases hrequested with
      | email hflag =>
        refine h.named.there _ (List.mem_append_right _ ?_)
        rw [Metadata.flag_iff.2 hflag]
        exact List.mem_singleton.2 rfl

/-! ### Renders -/

/-- The component after it was configured with one metadata after the other. -/
def configureEach (ms : List Metadata) (c : Component) : Component :=
  ms.foldl (fun c m => configureAll standard m c) c

theorem configureEach_cons (m : Metadata) (rest : List Metadata) (c : Component) :
    configureEach (m :: rest) c = configureEach rest (configureAll standard m c) := rfl

theorem configureEach_append (ms ms' : List Metadata) (c : Component) :
    configureEach (ms ++ ms') c = configureEach ms' (configureEach ms c) :=
  List.foldl_append

/-- Renders change the two flags, the attached validators and the attributes, and nothing else of
a component. -/
theorem frame_configureEach (ms : List Metadata) (c : Component) :
    ∃ required weaklyRequired attached attributes,
      configureEach ms c = { c with required, weaklyRequired, attached, attributes } := by
  induction ms generalizing c with
  | nil => exact ⟨c.required, c.weaklyRequired, c.attached, c.attributes, rfl⟩
  | cons m rest ih =>
    obtain ⟨required, weaklyRequired, attached, attributes, hrest⟩ := ih (configureAll standard m c)
    refine ⟨required, weaklyRequired, attached, attributes, ?_⟩
    rw [configureEach_cons, hrest, configureAll_eq]

/-- The explicit flag is left alone until a strong requirement sets it. -/
theorem required_configureEach (ms : List Metadata) (c : Component) :
    (configureEach ms c).required
      = if ms.any (·.flag Metadata.required) then some true else c.required := by
  induction ms generalizing c with
  | nil => rfl
  | cons m rest ih =>
    rw [configureEach_cons, ih, configureAll_eq, requiredAfter, List.any_cons]
    cases rest.any (·.flag Metadata.required) <;> cases m.flag Metadata.required <;> rfl

theorem slotKeyed_configureEach {c : Component} (h : SlotKeyed c.attached) (ms : List Metadata) :
    SlotKeyed (configureEach ms c).attached := by
  induction ms generalizing c with
  | nil => exact h
  | cons m rest ih => exact ih (h.configureAll m)

/-- After any renders, what is attached is what the last metadata requests. -/
theorem attached_iff_requested {c : Component} (h : SlotKeyed c.attached) (ms : List Metadata)
    (m : Metadata) (slot : String) (v : HostValidator) :
    (configureEach (ms ++ [m]) c).attached.get? slot = some v ↔ slot = v.slot ∧ Requested m v := by
  rw [configureEach_append]
  exact attached_iff_of_configured (configured_configureAll m _)
    ((slotKeyed_configureEach h ms).configureAll m) slot v

end Initializer

open Initializer

/-- The attached validators are a function of the last metadata. Take a component whose attached
validators stand in their own slots, and configure it with any metadata, one after the other.

* In every slot stands the validator with that slot that the last metadata requests, if there is
  one, and nothing else. So any other component, configured with other metadata before the same
  last one, has the same validators.
* A length validator with a maximum goes with the attribute that has the maximum as its value.
* The validators of the page author stay as they are, and so does the explicit flag as long as
  none of the metadata has a strong requirement. -/
theorem attached_configureEach (ms : List Metadata) (m : Metadata) (c : Component)
    (h : SlotKeyed c.attached) :
    let c' := configureEach (ms ++ [m]) c
    (∀ slot v, c'.attached.get? slot = some v ↔ slot = v.slot ∧ Requested m v) ∧
    (∀ (ms₂ : List Metadata) (c₂ : Component), SlotKeyed c₂.attached →
      (configureEach (ms₂ ++ [m]) c₂).attached = c'.attached) ∧
    (∀ least n, c'.attached.get? lengthSlot = some (.length least (some n)) →
      c'.attributes.get? maxlengthAttribute = some (.int n.toNat)) ∧
    c'.validators = c.validators ∧
    ((∀ m' ∈ ms ++ [m], m'.flag Metadata.required = false) → c'.required = c.required) := by
  intro c'
  refine ⟨attached_iff_requested h ms m, ?_, ?_, ?_, ?_⟩
  · intro ms₂ c₂ h₂
    refine Dict.ext_get? fun slot => Option.ext fun v => ?_
    exact (attached_iff_requested h₂ ms₂ m slot v).trans (attached_iff_requested h ms m slot v).symm
  · intro least n hlength
    have hconfigured : Configured m c' := by
      show Configured m (configureEach (ms ++ [m]) c)
      rw [configureEach_append]
      exact configured_configureAll m _
    exact hconfigured.maxlength least n (hconfigured.length.symm.trans hlength)
  · obtain ⟨required, weaklyRequired, attached, attributes, hframe⟩ :=
      frame_configureEach (ms ++ [m]) c
    show (configureEach (ms ++ [m]) c).validators = c.validators
    rw [hframe]
  · intro hweak
    have hnone : (ms ++ [m]).any (·.flag Metadata.required) = false :=
      List.any_eq_false.2 fun m' hm' => by simp [hweak m' hm']
    exact (required_configureEach (ms ++ [m]) c).trans (by rw [hnone]; rfl)

/-! ### A field with validators of an earlier render -/

/-- A field that its author wants to hold a mail address, or nothing. An earlier render has
attached a length validator and one for a pattern. -/
def mailField : Component :=
  (Component.attach { clientId := "form:mail", required := some false, validators := [.email] }
    (.length none (some 8))).attach (.regex "a+")

/-- The length validators of both earlier renders are gone, and so is the pattern. The pattern
that is listed twice is attached once. A bound that is no number makes a range validator for
decimal numbers without bounds, and a zero minimum makes no length validator. -/
theorem attached_configureEach_mail :
    let before : Metadata := Dict.ofList [("max_length", .int 20), ("weak_required", .bool true)]
    let last : Metadata := Dict.ofList [("min_length", .int 0), ("range_min", .string "low"),
      ("pattern", .array [.string "b+", .null, .string "b+"]), ("email", .bool true)]
    let c' := configureEach [before, last] mailField
    SlotKeyed mailField.attached ∧ c'.attached.get? "regex:b+" = some (.regex "b+") ∧
    c'.attached.pairs.map (·.1) = ["email", "range", "regex:b+"] ∧
    c'.validators = [.email] ∧ c'.required = some false := by
  intro before last c'
  have hkeyed : SlotKeyed mailField.attached := (SlotKeyed.empty.attach _).attach _
  obtain ⟨hattached, -, -, hvalidators, hrequired⟩ :=
    attached_configureEach [before] last mailField hkeyed
  have hlisted : last.Lists Metadata.pattern "b+" := Metadata.mem_texts.1 (by decide +kernel)
  refine ⟨hkeyed, ?_, by decide +kernel, hvalidators, hrequired ?_⟩
  · exact (hattached _ _).2 ⟨by decide +kernel, .regex "b+" hlisted⟩
  · decide +kernel

end FieldGuard
