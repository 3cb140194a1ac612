import FieldGuard.Proofs.Objects
import FieldGuard.Proofs.Submit

/-!
# `FieldGuard.Proofs.Unresolved`: a component whose property is not found is left alone

A binding may be missing or malformed, it may lead nowhere or through a value that is no object, the
object that it leads to may be null or of a type that nobody knows, and its type may have no
accessor for the property. In all these cases there is nothing to configure and nothing to validate.
The component is skipped, and the rest of the page goes on.

Skipping is the last that happens to a component, and only two things happen before: its stage is
set, and the recorders see its value. So what is said here of calls says also that nothing has been
changed by the time the failure shows.

* `TypeModel.isSome_readableAccessor?_iff`: which properties can be read;
* `Engine.Unresolved`, `Extraction.Lost`: that a property is not found, and why;
* `Engine.init_of_unresolved`, `Engine.submit_of_unresolved`: what the calls do then;
* `unresolved_left_alone`: both for every engine, and what extraction takes to succeed.
-/

set_option autoImplicit false

namespace FieldGuard

/-! ### Finding a property -/

/-- A property can be read just when a type of the hierarchy has an accessor on its first
declaration of the property. -/
theorem TypeModel.isSome_readableAccessor?_iff {m : TypeModel} {typeName property : String} :
    (m.readableAccessor? typeName property).isSome = true ↔
      ∃ t ∈ m.hierarchy typeName, ∃ p,
        t.property? property = some p ∧ p.accessor.isSome = true := by
  rw [readableAccessor?, List.findSome?_isSome_iff]
  constructor
  · rintro ⟨⟨t, p⟩, hmem, haccessor⟩
    obtain ⟨u, hu, hpair⟩ := List.mem_filterMap.1 hmem
    obtain ⟨q, hq, heq⟩ := Option.map_eq_some_iff.1 hpair
    cases heq
    exact ⟨t, hu, p, hq, haccessor⟩
  · rintro ⟨t, ht, p, hp, haccessor⟩
    refine ⟨(t, p), List.mem_filterMap.2 ⟨t, ht, ?_⟩, haccessor⟩
    rw [hp]
    rfl

namespace Extraction

variable {env : Environment} {page : Page}

/-- A property of an object is found just when the type of the object is known, and the property
can be read. -/
theorem exists_extract_iff {target : Target} {d : Details} {binding : Option String} {owner : Bean}
    (hlocate : locate env page target = .ok (d, binding)) (hbase : d.base = some owner) :
    (∃ info, extract env page target = .ok info) ↔
      env.types.contains owner.typeName = true ∧
      (env.types.readableAccessor? owner.typeName d.property).isSome = true := by
  constructor
  · rintro ⟨info, hinfo⟩
    obtain ⟨d', binding', hlocate', hfound⟩ := extract_eq_ok_iff.1 hinfo
    cases hlocate.symm.trans hlocate'
    obtain ⟨hnull, -⟩ | ⟨owner', hbase', hknown, hreadable, -⟩ := hfound
    · simp [hbase] at hnull
    · cases hbase.symm.trans hbase'
      exact ⟨hknown, hreadable⟩
  · rintro ⟨hknown, hreadable⟩
    exact ⟨_, extract_eq_ok_iff.2
      ⟨d, binding, hlocate, .inr ⟨owner, hbase, hknown, hreadable, rfl⟩⟩⟩

/-- A component is located by its binding, which has to be an expression with details. -/
theorem locate_component_eq_ok_iff {c : Component} {d : Details} {binding : Option String} :
    locate env page (.component c) = .ok (d, binding) ↔
      ∃ text, c.valueBinding = some text ∧ isTerm text = true ∧
        env.evaluator.details page.scope ⟨text⟩ = .ok d ∧ some text = binding := by
  rw [locate]
  cases c.valueBinding with
  | none => simp
  | some text =>
    show locateBinding env page text = _ ↔ _
    cases hterm : isTerm text with
    | false => simp [locateBinding, hterm]
    | true =>
      cases hdetails : env.evaluator.details page.scope ⟨text⟩ with
      | error fault => simp [locateBinding, hterm, hdetails, bind, Except.bind]
      | ok found => simp [locateBinding, hterm, hdetails, bind, Except.bind]

/-- Why the property that a component is bound to is not found. -/
inductive Lost (env : Environment) (page : Page) (c : Component) : Prop where
  /-- There is no binding. -/
  | unbound (h : c.valueBinding = none)
  /-- The binding is no expression. -/
  | malformed {text : String} (h : c.valueBinding = some text) (hterm : isTerm text = false)
  /-- The binding leads nowhere, or through something that is neither an object nor null. -/
  | unresolvable {text : String} {fault : Fault} (h : c.valueBinding = some text)
    (hterm : isTerm text = true) (hdetails : env.evaluator.details page.scope ⟨text⟩ = .error fault)
  /-- The object that the property belongs to is null. -/
  | nullBase {text : String} {d : Details} (h : c.valueBinding = some text)
    (hterm : isTerm text = true) (hdetails : env.evaluator.details page.scope ⟨text⟩ = .ok d)
    (hbase : d.base = none)
  /-- The object is of a type that the model does not have. -/
  | unknownType {text : String} {d : Details} {owner : Bean} (h : c.valueBinding = some text)
    (hterm : isTerm text = true) (hdetails : env.evaluator.details page.scope ⟨text⟩ = .ok d)
    (hbase : d.base = some owner) (hunknown : env.types.contains owner.typeName = false)
  /-- No type of the hierarchy has an accessor on its first declaration of the property. -/
  | unreadable {text : String} {d : Details} {owner : Bean} (h : c.valueBinding = some text)
    (hterm : isTerm text = true) (hdetails : env.evaluator.details page.scope ⟨text⟩ = .ok d)
    (hbase : d.base = some owner)
    (hunreadable : ∀ t ∈ env.types.hierarchy owner.typeName, ∀ p,
      t.property? d.property = some p → p.accessor = none)

end Extraction

namespace Engine

/-- The extraction for a component fails, or finds no object that the property belongs to. -/
def Unresolved (e : Engine) (r : Request) (c : Component) : Prop :=
  ∀ info, e.extract r c = .ok info → ∀ d, info.details? = some d → d.base = none

section

variable {e : Engine} {c : Component} {r : Request} {s : Session}

theorem unresolved_iff : e.Unresolved r c ↔ e.bound? r c = none := by
  unfold Unresolved bound?
  cases e.extract r c with
  | error fault => simp
  | ok info =>
    cases hdetails : info.details? with
    | none => simp [Bound.of?, hdetails]
    | some d => simp [Bound.of?, hdetails]

/-- The standard extractor finds no object, or one whose property it cannot read. -/
theorem unresolved_iff_unreadable (h : e.extractor = .standard) :
    e.Unresolved r c ↔
      ∀ d binding owner, Extraction.locate e.env r.page (.component c) = .ok (d, binding) →
        d.base = some owner →
        ¬ (e.env.types.contains owner.typeName = true ∧
          (e.env.types.readableAccessor? owner.typeName d.property).isSome = true) := by
  have hextract : e.extract r c = Extraction.extract e.env r.page (.component c) := by
    rw [extract, h]
    rfl
  unfold Unresolved
  rw [hextract]
  constructor
  · intro hunresolved d binding owner hlocate hbase hreadable
    obtain ⟨info, hinfo⟩ := (Extraction.exists_extract_iff hlocate hbase).2 hreadable
    obtain ⟨d', binding', entries, hlocate', rfl⟩ := Extraction.located_of_extract hinfo
    cases hlocate.symm.trans hlocate'
    simp [hunresolved _ hinfo d (PropertyInfo.details?_ofEntries d entries)] at hbase
  · intro hunreadable info hinfo d hd
    obtain ⟨d', binding, entries, hlocate, rfl⟩ := Extraction.located_of_extract hinfo
    cases (PropertyInfo.details?_ofEntries d' entries).symm.trans hd
    cases hbase : d.base with
    | none => rfl
    | some owner =>
      exact absurd ((Extraction.exists_extract_iff hlocate hbase).1 ⟨_, hinfo⟩)
        (hunreadable d binding owner hlocate hbase)

/-- So there are six reasons why it does not find a property. -/
theorem unresolved_iff_lost (h : e.extractor = .standard) :
    e.Unresolved r c ↔ Extraction.Lost e.env r.page c := by
  rw [unresolved_iff_unreadable h]
  constructor
  · intro hunreadable
    cases hbinding : c.valueBinding with
    | none => exact .unbound hbinding
    | some text =>
      cases hterm : isTerm text with
      | false => exact .malformed hbinding hterm
      | true =>
        cases hdetails : e.env.evaluator.details r.page.scope ⟨text⟩ with
        | error fault => exact .unresolvable hbinding hterm hdetails
        | ok d =>
          cases hbase : d.base with
          | none => exact .nullBase hbinding hterm hdetails hbase
          | some owner =>
            have hnot := hunreadable d (some text) owner
              (Extraction.locate_component_eq_ok_iff.2 ⟨text, hbinding, hterm, hdetails, rfl⟩) hbase
            cases hknown : e.env.types.contains owner.typeName with
            | false => exact .unknownType hbinding hterm hdetails hbase hknown
            | true =>
              refine .unreadable hbinding hterm hdetails hbase fun t ht p hp => ?_
              have hnone : p.accessor.isSome ≠ true := fun haccessor =>
                hnot ⟨hknown, TypeModel.isSome_readableAccessor?_iff.2 ⟨t, ht, p, hp, haccessor⟩⟩
              simpa using hnone
  · intro hlost d binding owner hlocate hbase ⟨hknown, hreadable⟩
    obtain ⟨text, hbinding, hterm, hdetails, -⟩ :=
      Extraction.locate_component_eq_ok_iff.1 hlocate
    -- Every reason contradicts one of the things that the location has found.
    cases hlost with
    | unbound h => simp [hbinding] at h
    | malformed h hmalformed =>
      cases hbinding.symm.trans h
      simp [hterm] at hmalformed
    | unresolvable h _ herror =>
      cases hbinding.symm.trans h
      simp [hdetails] at herror
    | nullBase h _ hfound hnull =>
      cases hbinding.symm.trans h
      cases hdetails.symm.trans hfound
      simp [hbase] at hnull
    | unknownType h _ hfound hsome hunknown =>
      cases hbinding.symm.trans h
      cases hdetails.symm.trans hfound
      cases hbase.symm.trans hsome
      simp [hknown] at hunknown
    | unreadable h _ hfound hsome hunreadable =>
      cases hbinding.symm.trans h
      cases hdetails.symm.trans hfound
      cases hbase.symm.trans hsome
      obtain ⟨t, ht, p, hp, haccessor⟩ := TypeModel.isSome_readableAccessor?_iff.1 hreadable
      simp [hunreadable t ht p hp] at haccessor

/-! ### Skipping -/

/-- Configuring a component whose property is not found does no more than set its stage. -/
theorem init_of_unresolved (h : e.Unresolved (s.request.setStage c.clientId .init) c) :
    ∃ stage, e.init c s = ((∅, c), { s with request := s.request.setStage c.clientId stage }) :=
  init_of_bound_none (unresolved_iff.1 h)

/-- A text that converts is valid for such a component. It is recorded, unless the component is not
editable, and that is all. -/
theorem submit_of_unresolved {text : String} {value : Value} (hconvert : c.convert text = .ok value)
    (h : c.editable = true → e.Unresolved (e.recorded c value s.request) c) :
    e.submit c text s
      = (.valid, { s with request :=
          if c.editable then e.recorded c value s.request
          else s.request.setStage c.clientId .rawInput }) := by
  cases heditable : c.editable with
  | false => exact submit_of_not_editable heditable s
  | true =>
    rw [submit_of_converted heditable hconvert, unresolved_iff.1 (h heditable)]
    rfl

end

end Engine

/-! ### The statement -/

/-- A component whose property is not found is skipped, and nothing else is touched.

Configuring it yields no metadata and the component as it was, and of the session only its stage
changes. Submitting a text that converts is valid, whatever hooks there are, since none of them
runs. The session is left as it is when the value has been recorded, and the standard recorder has
only recorded it. With the standard extractor this is so for the six reasons that are listed, and
for no other: a property of an object is found just when the type of the object is known and a type
of its hierarchy has an accessor on its first declaration of the property. -/
theorem unresolved_left_alone (e : Engine) (c : Component) :
    (∀ s : Session, e.Unresolved (s.request.setStage c.clientId .init) c → ∃ stage,
      e.init c s = ((∅, c), { s with request := s.request.setStage c.clientId stage })) ∧
    (∀ (text : String) (value : Value) (s : Session) (hooks : List Hook),
      c.convert text = .ok value →
      (c.editable = true → e.Unresolved (e.recorded c value s.request) c) →
      { e with hooks }.submit c text s
        = (.valid, { s with request :=
            if c.editable then e.recorded c value s.request
            else s.request.setStage c.clientId .rawInput })) ∧
    (e.recorders = [.standard] → ∀ value r, ∃ recorded,
      e.recorded c value r = { r.setStage c.clientId .converted with recorded }) ∧
    (e.extractor = .standard →
      (∀ r, e.Unresolved r c ↔ Extraction.Lost e.env r.page c) ∧
      ∀ r target d binding owner, Extraction.locate e.env r.page target = .ok (d, binding) →
        d.base = some owner →
        ((∃ info, e.extractor.extract e.env r target = .ok info) ↔
          e.env.types.contains owner.typeName = true ∧
          ∃ t ∈ e.env.types.hierarchy owner.typeName, ∃ p,
            t.property? d.property = some p ∧ p.accessor.isSome = true)) := by
  refine ⟨fun s h => Engine.init_of_unresolved h, fun text value s hooks hconvert h => ?_,
    fun hrecorders value r => ?_, fun hextractor => ⟨fun r => ?_, ?_⟩⟩
  · -- Neither the extraction nor the recorders depend on the hooks.
    exact Engine.submit_of_unresolved (e := { e with hooks }) hconvert h
  · obtain ⟨recorded, hrecorded⟩ := Engine.recordAll_eq hrecorders c value
      ((r.setStage c.clientId .rawInput).setStage c.clientId .converted)
    exact ⟨recorded, by rw [Engine.recorded, hrecorded, Request.setStage_setStage]⟩
  · exact Engine.unresolved_iff_lost hextractor
  · intro r target d binding owner hlocate hbase
    rw [hextractor, ← TypeModel.isSome_readableAccessor?_iff]
    exact Extraction.exists_extract_iff hlocate hbase

/-- The parts of an engine that knows addresses. -/
def addressParts : EngineParts where
  types := .ofTypes [{ name := "Address", properties := [PropertyDecl.new "zip"] }]

/-- A page with a person who has no address. -/
def visitorPage : Request :=
  .new "/edit" (Dict.ofList [("person", .object (Record.ofType "Person"))])

/-- A field for the code of the missing address, and a hook that would refuse it: the field is left
alone. The code of an address itself can be read. -/
theorem unresolved_left_alone_address :
    let e := addressParts.engine
    let s := Session.start e visitorPage
    let c : Component :=
      { clientId := "form:zip", valueBinding := some "#\x7bperson.address.zip\x7d" }
    let hook : Hook := { before := fun _ _ _ r => (false, { r with journal := ["refused"] }) }
    let d : Details := ⟨"address.zip", some (Record.ofType "Address"), "zip"⟩
    Extraction.Lost e.env s.request.page c ∧
    (∃ stage, e.init c s
      = ((∅, c), { s with request := s.request.setStage c.clientId stage })) ∧
    (∃ recorded, { e with hooks := [hook] }.submit c "1010" s
      = (.valid,
          { s with request := { s.request.setStage c.clientId .converted with recorded } })) ∧
    ∃ info, Extractor.standard.extract e.env s.request (.details d) = .ok info := by
  intro e s c hook d
  obtain ⟨hinit, hsubmit, hrecorded, hstandard⟩ := unresolved_left_alone e c
  obtain ⟨hlost, hfound⟩ := hstandard rfl
  obtain ⟨recorded, hr⟩ := hrecorded rfl (.text "1010") s.request
  have hunresolved : e.Unresolved s.request c := Engine.unresolved_iff.2 (by decide +kernel)
  have hpage : Extraction.Lost e.env s.request.page c := (hlost s.request).1 hunresolved
  refine ⟨hpage, hinit s ((hlost _).2 hpage), ⟨recorded, ?_⟩, ?_⟩
  · rw [← hr]
    refine hsubmit "1010" (.text "1010") s [hook] rfl fun _ => ?_
    rw [hr]
    exact (hlost _).2 hpage
  · exact (hfound s.request (.details d) d none _ rfl rfl).2 (by decide +kernel)

end FieldGuard
