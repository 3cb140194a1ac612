import FieldGuard.Initializer

/-!
# `FieldGuard.Proofs.Configuration`: configuring a component twice is configuring it once

Five initializers share the attached validators of a component, and each replaces, keeps or
drops some of them. Two shapes are enough for what they do. Lengths and ranges have one slot for
their kind, which is written or emptied (`putSlot`). Patterns and named validators have a slot
each; those that metadata does not ask for are dropped, and those that it asks for attached
(`refill`). A slot of the second shape belongs to one validator (`HostValidator.eq_of_slot_eq`),
so the initializers do not get in each other's way, whatever stood in the slots before.

The attribute for the greatest length is the delicate part. A second run finds the validator of
the first, takes the attribute for written by it, drops it and writes it again; an attribute of
the page author is left alone in both runs, or replaced in the first one.

* `refill_of_filled`, `attributesAfter_of_written`: what is written is not changed by writing it
  again;
* `Configured`: everything that the standard initializers write;
* `configured_configureAll`: they do write it, none undoes what another one wrote;
* `configureAll_idem`: so a second run with the same metadata changes nothing.
-/

set_option autoImplicit false

namespace FieldGuard

/-! ### Slots -/

namespace HostValidator

/-- The validators of these kinds have a slot each; all others share one with their kind. -/
def hasOwnSlot : HostValidator → Bool
  | .regex _ | .email | .custom _ => true
  | _ => false

/-- Nothing else is attached in the slot of such a validator. -/
theorem eq_of_slot_eq {v w : HostValidator} (hv : v.hasOwnSlot = true) (h : w.slot = v.slot) :
    w = v := by
  -- The slots of two kinds differ in one of their first letters, those of one kind in the rest.
  have htexts := congrArg String.toList h
  clear h
  cases v <;> cases w <;> simp_all [hasOwnSlot, slot, String.toList_inj]

end HostValidator

namespace Initializer

/-- The validators with something in the slot, or with nothing in it. -/
def putSlot (slot : String) (v : Option HostValidator) (attached : Dict HostValidator) :
    Dict HostValidator :=
  match v with
  | some v => attached.insert slot v
  | none => attached.erase slot

theorem get?_putSlot (slot other : String) (v : Option HostValidator)
    (attached : Dict HostValidator) :
    (putSlot slot v attached).get? other = if slot = other then v else attached.get? other := by
  cases v with
  | none => exact Dict.get?_erase _ _ _
  | some v => exact Dict.get?_insert _ _ _ _

/-- Putting what is there changes nothing. -/
theorem putSlot_of_get? {slot : String} {v : Option HostValidator} {attached : Dict HostValidator}
    (h : attached.get? slot = v) : putSlot slot v attached = attached := by
  refine Dict.ext_get? fun key => ?_
  rw [get?_putSlot]
  split
  · next hkey => rw [← hkey, h]
  · rfl

/-! ### Filling up -/

/-- Keeps some of the validators, and attaches others after that. -/
def refill (keeps : HostValidator → Bool) (vs : List HostValidator)
    (attached : Dict HostValidator) : Dict HostValidator :=
  vs.foldl (fun attached v => attached.insert v.slot v) (attached.filter fun _ v => keeps v)

/-- Validators that are worth keeping and have their own slots. -/
structure Fits (keeps : HostValidator → Bool) (vs : List HostValidator) : Prop where
  keeps : ∀ v ∈ vs, keeps v = true
  own : ∀ v ∈ vs, v.hasOwnSlot = true

theorem slot_of_find? {vs : List HostValidator} {slot : String} {v : HostValidator}
    (h : (vs.find? fun v => v.slot == slot) = some v) : v.slot = slot := by
  simpa using List.find?_some h

/-- In the slot of a validator with its own slot no other one is found. -/
theorem eq_of_find?_slot {vs : List HostValidator} {v w : HostValidator}
    (hv : v.hasOwnSlot = true) (h : (vs.find? fun w => w.slot == v.slot) = some w) : w = v :=
  HostValidator.eq_of_slot_eq hv (slot_of_find? h)

theorem get?_foldl_insert {vs : List HostValidator} (h : ∀ v ∈ vs, v.hasOwnSlot = true)
    (attached : Dict HostValidator) (slot : String) :
    (vs.foldl (fun attached v => attached.insert v.slot v) attached).get? slot
      = (vs.find? fun v => v.slot == slot).or (attached.get? slot) := by
  induction vs generalizing attached with
  | nil => rfl
  | cons v rest ih =>
    have hrest := ih fun w hw => h w (List.mem_cons_of_mem _ hw)
    rw [List.foldl_cons, hrest, Dict.get?_insert, List.find?_cons]
    by_cases hslot : v.slot = slot
    · subst hslot
      rw [if_pos rfl, beq_self_eq_true]
      cases hlater : rest.find? fun w => w.slot == v.slot with
      | none => rfl
      | some w =>
        -- A validator that comes later in the same slot is the same one.
        rw [eq_of_find?_slot (h v List.mem_cons_self) hlater]
        rfl
    · rw [if_neg hslot, beq_eq_false_iff_ne.2 hslot]

theorem get?_refill {keeps : HostValidator → Bool} {vs : List HostValidator} (h : Fits keeps vs)
    (attached : Dict HostValidator) (slot : String) :
    (refill keeps vs attached).get? slot
      = (vs.find? fun v => v.slot == slot).or ((attached.get? slot).filter keeps) := by
  rw [refill, get?_foldl_insert h.own, Dict.get?_filter]

/-- Nothing is attached that is not worth keeping, and everything that is asked for is. -/
structure Filled (keeps : HostValidator → Bool) (vs : List HostValidator)
    (attached : Dict HostValidator) : Prop where
  kept : ∀ slot v, attached.get? slot = some v → keeps v = true
  there : ∀ v ∈ vs, attached.get? v.slot = some v

theorem find?_slot {vs : List HostValidator} {v : HostValidator} (hv : v ∈ vs)
    (hown : v.hasOwnSlot = true) : (vs.find? fun w => w.slot == v.slot) = some v := by
  cases hfound : vs.find? fun w => w.slot == v.slot with
  | none => simpa using List.find?_eq_none.1 hfound v hv
  | some w => rw [eq_of_find?_slot hown hfound]

section

variable {keeps keeps' : HostValidator → Bool} {vs vs' : List HostValidator}
  {attached : Dict HostValidator}

theorem filled_refill (h : Fits keeps vs) (attached : Dict HostValidator) :
    Filled keeps vs (refill keeps vs attached) where
  kept slot v hv := by
    rw [get?_refill h, Option.or_eq_some_iff] at hv
    rcases hv with hv | ⟨-, hv⟩
    · exact h.keeps v (List.mem_of_find?_eq_some hv)
    · exact (Option.filter_eq_some_iff.1 hv).2
  there v hv := by
    rw [get?_refill h, find?_slot hv (h.own v hv)]
    rfl

/-- What is filled up stays as it is when it is filled up again. -/
theorem refill_of_filled (h : Fits keeps vs) (hfilled : Filled keeps vs attached) :
    refill keeps vs attached = attached := by
  refine Dict.ext_get? fun slot => ?_
  rw [get?_refill h]
  cases hfound : vs.find? fun v => v.slot == slot with
  | some v =>
    rw [← slot_of_find? hfound, hfilled.there v (List.mem_of_find?_eq_some hfound)]
    rfl
  | none =>
    cases hold : attached.get? slot with
    | none => rfl
    | some v => simp [hfilled.kept slot v hold]

/-- Filling up with other validators leaves this alone, if either side keeps what the other
attaches. -/
theorem Filled.refill (h : Fits keeps vs) (h' : Fits keeps' vs') (hkeeps : ∀ v ∈ vs', keeps v = true)
    (hkeeps' : ∀ v ∈ vs, keeps' v = true) (hfilled : Filled keeps vs attached) :
    Filled keeps vs (refill keeps' vs' attached) where
  kept slot v hv := by
    rw [get?_refill h', Option.or_eq_some_iff] at hv
    rcases hv with hv | ⟨-, hv⟩
    · exact hkeeps v (List.mem_of_find?_eq_some hv)
    · exact hfilled.kept slot v (Option.filter_eq_some_iff.1 hv).1
  there v hv := by
    rw [get?_refill h', hfilled.there v hv]
    cases hfound : vs'.find? fun w => w.slot == v.slot with
    | none => simp [hkeeps' v hv]
    | some w =>
      rw [eq_of_find?_slot (h.own v hv) hfound]
      rfl

/-- Filling up leaves a slot alone that is shared by a kind. -/
theorem get?_refill_of_shared (h : Fits keeps vs) {w : HostValidator}
    (hshared : w.hasOwnSlot = false)
    (hkept : ∀ v, attached.get? w.slot = some v → keeps v = true) :
    (Initializer.refill keeps vs attached).get? w.slot = attached.get? w.slot := by
  have hnone : (vs.find? fun v => v.slot == w.slot) = none := by
    refine List.find?_eq_none.2 fun v hv hslot => ?_
    have hsame := HostValidator.eq_of_slot_eq (h.own v hv) (beq_iff_eq.1 hslot).symm
    rw [hsame, h.own v hv] at hshared
    cases hshared
  rw [get?_refill h, hnone]
  cases hold : attached.get? w.slot with
  | none => rfl
  | some v => simp [hkept v hold]

end

/-! ### What metadata asks for -/

variable (m : Metadata)

/-- The length validator, if the bounds restrict anything. -/
def lengthValidator? : Option HostValidator :=
  if restrictsLength (bound? m Metadata.minLength) (bound? m Metadata.maxLength) then
    some (.length (bound? m Metadata.minLength) (bound? m Metadata.maxLength))
  else none

/-- The range validator, if there is a bound. -/
def rangeValidator? : Option HostValidator :=
  if (m.get? Metadata.rangeMin).isNone && (m.get? Metadata.rangeMax).isNone then none
  else some (rangeValidator (m.get? Metadata.rangeMin) (m.get? Metadata.rangeMax))

/-- The validators of the patterns. -/
def patternValidators : List HostValidator :=
  (m.texts Metadata.pattern).map .regex

/-- The named validators, and the one for mail addresses. -/
def namedValidators : List HostValidator :=
  (m.texts Metadata.custom).map .custom ++ if m.flag Metadata.email then [.email] else []

/-- Patterns are kept if the metadata asks for them, and all other kinds. -/
def keepsTexts : HostValidator → Bool :=
  keepsPattern (m.texts Metadata.pattern)

/-- Named validators are kept if the metadata asks for them, and all other kinds. -/
def keepsNamed : HostValidator → Bool :=
  keepsCustom (m.texts Metadata.custom) (m.flag Metadata.email)

theorem fits_patterns : Fits (keepsTexts m) (patternValidators m) where
  keeps v hv := by
    obtain ⟨text, htext, rfl⟩ := List.mem_map.1 hv
    simpa [keepsTexts, keepsPattern] using htext
  own v hv := by
    obtain ⟨text, -, rfl⟩ := List.mem_map.1 hv
    rfl

theorem mem_namedValidators {v : HostValidator} (h : v ∈ namedValidators m) :
    (∃ id ∈ m.texts Metadata.custom, v = .custom id) ∨
      m.flag Metadata.email = true ∧ v = .email := by
  rcases List.mem_append.1 h with h | h
  · obtain ⟨id, hid, rfl⟩ := List.mem_map.1 h
    exact .inl ⟨id, hid, rfl⟩
  · split at h
    · next hemail => exact .inr ⟨hemail, List.mem_singleton.1 h⟩
    · cases h

theorem fits_named : Fits (keepsNamed m) (namedValidators m) where
  keeps v hv := by
    obtain ⟨id, hid, rfl⟩ | ⟨hemail, rfl⟩ := mem_namedValidators m hv
    · simpa [keepsNamed, keepsCustom] using hid
    · exact hemail
  own v hv := by
    obtain ⟨id, -, rfl⟩ | ⟨-, rfl⟩ := mem_namedValidators m hv <;> rfl

/-! ### What each initializer does -/

variable (c : Component)

theorem foldl_attach (items : List String) (f : String → HostValidator) :
    items.foldl (fun c item => c.attach (f item)) c
      = { c with
          attached := (items.map f).foldl (fun attached v => attached.insert v.slot v)
            c.attached } := by
  induction items generalizing c with
  | nil => rfl
  | cons item rest ih =>
    rw [List.foldl_cons, ih]
    rfl

/-- The explicit flag becomes true for a strong requirement. -/
def requiredAfter : Option Bool :=
  if m.flag Metadata.required then some true else c.required

/-- The weak flag becomes true for a weak requirement without a strong one, unless there is an
explicit flag. -/
def weaklyRequiredAfter : Bool :=
  c.weaklyRequired ||
    (!m.flag Metadata.required && m.flag Metadata.weakRequired && c.required.isNone)

theorem configureRequired_eq : configureRequired m c
    = { c with required := requiredAfter m c, weaklyRequired := weaklyRequiredAfter m c } := by
  unfold configureRequired requiredAfter weaklyRequiredAfter
  cases m.flag Metadata.required with
  | true => simp [Component.setRequired]
  | false =>
    cases m.flag Metadata.weakRequired with
    | false => simp
    | true =>
      unfold Component.markWeaklyRequired
      cases hset : c.required with
      | none => simp
      | some flag =>
        simp only [Option.isNone_some, Bool.false_eq_true, if_false, if_true, Bool.and_false,
          Bool.or_false]
        rw [← hset]

theorem configureRange_eq : configureRange m c
    = { c with attached := putSlot rangeSlot (rangeValidator? m) c.attached } := by
  unfold configureRange rangeValidator?
  dsimp only
  split
  · rfl
  · -- Both kinds of range validators are attached in one slot.
    have hslot : ∀ least most : Option Json, (rangeValidator least most).slot = rangeSlot := by
      intro least most
      unfold rangeValidator
      dsimp only
      split <;> rfl
    rw [Component.attach, hslot]
    rfl

theorem configurePattern_eq : configurePattern m c
    = { c with attached := refill (keepsTexts m) (patternValidators m) c.attached } := by
  rw [configurePattern, foldl_attach]
  rfl

theorem configureCustom_eq : configureCustom m c
    = { c with attached := refill (keepsNamed m) (namedValidators m) c.attached } := by
  rw [configureCustom, foldl_attach, refill, namedValidators, List.foldl_append]
  unfold keepsNamed
  cases m.flag Metadata.email <;> rfl

/-- The attributes without the one that goes with a written length validator. -/
def withoutWritten (written : Option HostValidator) (attributes : Dict Json) : Dict Json :=
  match written with
  | some (.length _ (some most)) =>
    if attributes.get? maxlengthAttribute == some (Json.int most.toNat) then
      attributes.erase maxlengthAttribute
    else attributes
  | _ => attributes

theorem dropMaxlength_eq (written : Option HostValidator) : dropMaxlength c written
    = { c with attributes := withoutWritten written c.attributes } := by
  unfold dropMaxlength withoutWritten
  cases written with
  | none => rfl
  | some v =>
    cases v with
    | length least most =>
      cases most with
      | none => rfl
      | some most =>
        dsimp only
        split <;> rfl
    | _ => rfl

/-- The attributes after the length initializer: what an earlier render wrote is gone, and the
greatest length is written if there is one. -/
def attributesAfter : Dict Json :=
  let dropped := (dropMaxlength c (c.attached.get? lengthSlot)).attributes
  match lengthValidator? m with
  | some (.length _ (some most)) => dropped.insert maxlengthAttribute (.int most.toNat)
  | _ => dropped

theorem configureLength_eq : configureLength m c
    = { c with
        attached := putSlot lengthSlot (lengthValidator? m) c.attached
        attributes := attributesAfter m c } := by
  unfold configureLength lengthValidator? attributesAfter dropLength
  dsimp only
  rw [dropMaxlength_eq]
  split
  · next hrestricts =>
    -- Attaching in the slot that was emptied is attaching there in the first place.
    have hattached : ∀ v : HostValidator,
        (c.attached.erase lengthSlot).insert lengthSlot v = c.attached.insert lengthSlot v :=
      Dict.insert_erase_self c.attached lengthSlot
    rw [lengthValidator?, if_pos hrestricts, Component.attach, putSlot, ← hattached]
    cases bound? m Metadata.maxLength <;> rfl
  · next hrestricts =>
    rw [lengthValidator?, if_neg hrestricts]
    rfl

/-- The attribute is the one that the length initializer writes, if it writes any. -/
def HasMaxlength (attributes : Dict Json) : Prop :=
  ∀ least most, lengthValidator? m = some (.length least (some most)) →
    attributes.get? maxlengthAttribute = some (.int most.toNat)

theorem hasMaxlength_attributesAfter : HasMaxlength m (attributesAfter m c) := by
  intro least most h
  rw [attributesAfter, h]
  exact Dict.get?_insert_self _ _ _

/-- Written once, the attribute stays as it is: it is taken for the one of an earlier render,
and written again. -/
theorem attributesAfter_of_written (hslot : c.attached.get? lengthSlot = lengthValidator? m)
    (hattribute : HasMaxlength m c.attributes) : attributesAfter m c = c.attributes := by
  rw [attributesAfter, hslot]
  cases hv : lengthValidator? m with
  | none => rfl
  | some v =>
    cases v with
    | length least most =>
      cases most with
      | none => rfl
      | some most =>
        have hthere := hattribute least most hv
        dsimp only
        rw [dropMaxlength_eq, withoutWritten, hthere,
          if_pos (Json.some_int_beq_self most.toNat), Dict.insert_erase_self,
          Dict.insert_eq_self hthere]
    | _ => rfl

/-! ### Configured components -/

/-- The component has everything that the standard initializers write. -/
structure Configured : Prop where
  required : m.flag Metadata.required = true → c.required = some true
  weak : m.flag Metadata.weakRequired = true → c.required = none → c.weaklyRequired = true
  length : c.attached.get? lengthSlot = lengthValidator? m
  maxlength : HasMaxlength m c.attributes
  range : c.attached.get? rangeSlot = rangeValidator? m
  patterns : Filled (keepsTexts m) (patternValidators m) c.attached
  named : Filled (keepsNamed m) (namedValidators m) c.attached

variable {m c}

theorem configureRequired_of_configured (h : Configured m c) : configureRequired m c = c := by
  unfold configureRequired
  split
  · next hflag =>
    rw [Component.setRequired, ← h.required hflag]
  · split
    · next hflag =>
      unfold Component.markWeaklyRequired
      split
      · next hnone => rw [← h.weak hflag (Option.isNone_iff_eq_none.1 hnone)]
      · rfl
    · rfl

/-- A configured component stays as it is when it is configured again. -/
theorem configureAll_of_configured (h : Configured m c) : configureAll standard m c = c := by
  have hlength : configureLength m c = c := by
    rw [configureLength_eq, putSlot_of_get? h.length, attributesAfter_of_written m c h.length
      h.maxlength]
  have hrange : configureRange m c = c := by
    rw [configureRange_eq, putSlot_of_get? h.range]
  have hpatterns : configurePattern m c = c := by
    rw [configurePattern_eq, refill_of_filled (fits_patterns m) h.patterns]
  have hnamed : configureCustom m c = c := by
    rw [configureCustom_eq, refill_of_filled (fits_named m) h.named]
  show configureCustom m (configurePattern m (configureRange m (configureLength m
    (configureRequired m c)))) = c
  rw [configureRequired_of_configured h, hlength, hrange, hpatterns, hnamed]

variable (m c)

theorem exists_of_lengthValidator? {v : HostValidator} (h : lengthValidator? m = some v) :
    ∃ least most, v = .length least most := by
  unfold lengthValidator? at h
  split at h
  · cases h
    exact ⟨_, _, rfl⟩
  · cases h

theorem exists_of_rangeValidator? {v : HostValidator} (h : rangeValidator? m = some v) :
    (∃ least most, v = .wholeRange least most) ∨ ∃ least most, v = .decimalRange least most := by
  unfold rangeValidator? rangeValidator at h
  dsimp only at h
  split at h
  · cases h
  · cases h
    split
    · exact .inl ⟨_, _, rfl⟩
    · exact .inr ⟨_, _, rfl⟩

/-- Patterns and named validators come and go without the others. -/
theorem keeps_of_shared {v : HostValidator} (h : v.hasOwnSlot = false) :
    keepsTexts m v = true ∧ keepsNamed m v = true := by
  cases v with
  | regex pattern => cases h
  | email => cases h
  | custom id => cases h
  | _ => exact ⟨rfl, rfl⟩

/-- The validators after all initializers. -/
def attachedAfter (attached : Dict HostValidator) : Dict HostValidator :=
  refill (keepsNamed m) (namedValidators m)
    (refill (keepsTexts m) (patternValidators m)
      (putSlot rangeSlot (rangeValidator? m)
        (putSlot lengthSlot (lengthValidator? m) attached)))

/-- A slot that a kind shares is left alone once it holds a validator of the kind. -/
theorem get?_attachedAfter {attached : Dict HostValidator} {w : HostValidator}
    (hw : w.hasOwnSlot = false) {v? : Option HostValidator}
    (hv : ∀ v, v? = some v → v.hasOwnSlot = false)
    (h : (putSlot rangeSlot (rangeValidator? m)
      (putSlot lengthSlot (lengthValidator? m) attached)).get? w.slot = v?) :
    (attachedAfter m attached).get? w.slot = v? := by
  have hpatterns := get?_refill_of_shared (fits_patterns m) hw fun v hget =>
    (keeps_of_shared m (hv v (h.symm.trans hget))).1
  have hnamed := get?_refill_of_shared (fits_named m) hw fun v hget =>
    (keeps_of_shared m (hv v (h.symm.trans (hpatterns.symm.trans hget)))).2
  rw [attachedAfter, hnamed, hpatterns, h]

theorem configureAll_eq : configureAll standard m c
    = { c with
        required := requiredAfter m c
        weaklyRequired := weaklyRequiredAfter m c
        attached := attachedAfter m c.attached
        attributes := attributesAfter m c } := by
  show configureCustom m (configurePattern m (configureRange m (configureLength m
    (configureRequired m c)))) = _
  -- The initializer of the flags comes first, and no other one looks at them.
  have hattributes : attributesAfter m (configureRequired m c) = attributesAfter m c := by
    simp only [attributesAfter, dropMaxlength_eq, configureRequired_eq]
  rw [configureLength_eq, configureRange_eq, configurePattern_eq, configureCustom_eq, hattributes,
    configureRequired_eq]
  rfl

/-- The initializers change neither who the component is nor what it is bound to. -/
theorem source_configureAll : (configureAll standard m c).identity = c.identity ∧
    (configureAll standard m c).valueBinding = c.valueBinding := by
  rw [configureAll_eq]
  exact ⟨rfl, rfl⟩

theorem weaklyRequiredAfter_of_weak (h : m.flag Metadata.weakRequired = true)
    (hnone : requiredAfter m c = none) : weaklyRequiredAfter m c = true := by
  unfold requiredAfter at hnone
  split at hnone
  · cases hnone
  · next hstrong => simp [weaklyRequiredAfter, hstrong, h, hnone]

/-- The standard initializers write what they ask for: none undoes what another one wrote. -/
theorem configured_configureAll : Configured m (configureAll standard m c) := by
  rw [configureAll_eq]
  constructor
  case required => exact fun h => if_pos h
  case weak => exact weaklyRequiredAfter_of_weak m c
  case maxlength => exact hasMaxlength_attributesAfter m _
  case length =>
    -- The slot of ranges is another one.
    refine get?_attachedAfter (w := .length none none) m rfl
      (fun v hv => by obtain ⟨_, _, rfl⟩ := exists_of_lengthValidator? m hv; rfl) ?_
    rw [get?_putSlot, if_neg (by decide), get?_putSlot]
    exact if_pos rfl
  case range =>
    refine get?_attachedAfter (w := .wholeRange none none) m rfl
      (fun v hv => by
        obtain ⟨_, _, rfl⟩ | ⟨_, _, rfl⟩ := exists_of_rangeValidator? m hv <;> rfl) ?_
    rw [get?_putSlot]
    exact if_pos rfl
  case patterns =>
    -- No named validator is a pattern, and patterns are kept whatever the names.
    refine (filled_refill (fits_patterns m) _).refill (fits_patterns m) (fits_named m) ?_ ?_
    · intro v hv
      obtain ⟨id, -, rfl⟩ | ⟨-, rfl⟩ := mem_namedValidators m hv <;> rfl
    · intro v hv
      obtain ⟨text, -, rfl⟩ := List.mem_map.1 hv
      rfl
  case named => exact filled_refill (fits_named m) _

/-- Configuring a component twice with the same metadata is configuring it once. -/
theorem configureAll_idem :
    configureAll standard m (configureAll standard m c) = configureAll standard m c :=
  configureAll_of_configured (configured_configureAll m c)

end Initializer

end FieldGuard
