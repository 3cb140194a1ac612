import FieldGuard.CommandLine.Run
import FieldGuard.Proofs.Rendering
import FieldGuard.Proofs.Runs

/-!
# `FieldGuard.Proofs.Verdict`: when validation from the command line succeeds

A validation ends well if no outcome and no object failed. The outcomes are kept by client id,
and a fixture may give one client id to several components; of their outcomes the last one
stands, and the ones before it do not count. So a failure that is reported to the user may be
missing from the verdict.

`submissions` lists all outcomes of a run with their client ids, in the order of the components.
Validation puts them into a dictionary one after the other (`validateAll_eq`), which leaves
those that stand (`mem_kept_iff`), while the messages are those of all failures
(`messages_findings`).

* `validate_succeeds_iff`: the verdict, and when it is the right one;
* `validate_overlooks_failure`: a run that succeeds though a submission has failed.
-/

set_option autoImplicit false

namespace FieldGuard

/-- Rendering keeps the client id. -/
theorem Engine.clientId_init {e : Engine} (h : e.initializers = Initializer.standard)
    (c : Component) (s : Session) : (e.init c s).1.2.clientId = c.clientId := by
  cases hbound : e.bound? (s.request.setStage c.clientId .init) c with
  | none =>
    obtain ⟨stage, hinit⟩ := Engine.init_of_bound_none hbound
    rw [hinit]
  | some b =>
    rw [Engine.component_init hbound, h]
    exact congrArg Identity.clientId (Initializer.source_configureAll _ c).1

theorem Outcome.failures_eq_nil_iff (o : Outcome) : o.failures = [] ↔ o.isValid = true := by
  cases o <;> simp [Outcome.failures, Outcome.failure?, Outcome.isValid]

/-- Every failure has a message. -/
theorem Failure.flatMap_queued_eq_nil_iff (failures : List Failure) :
    failures.flatMap Failure.queued = [] ↔ failures = [] := by
  cases failures <;> simp [Failure.queued, Failure.messages]

namespace CommandLine

/-! ### The outcome that stands -/

/-- Of outcomes under client ids, those whose client id does not come up again. -/
def standing : List (String × Outcome) → List (String × Outcome)
  | [] => []
  | (id, outcome) :: rest =>
    if id ∈ rest.map (·.1) then standing rest else (id, outcome) :: standing rest

theorem mem_ids_standing (id : String) (ran : List (String × Outcome)) :
    id ∈ (standing ran).map (·.1) ↔ id ∈ ran.map (·.1) := by
  induction ran with
  | nil => rfl
  | cons p rest ih =>
    obtain ⟨k, o⟩ := p
    rw [standing, List.map_cons, List.mem_cons]
    split
    · next hagain =>
      rw [ih]
      exact ⟨.inr, fun h => h.elim (fun heq => heq ▸ hagain) fun hmem => hmem⟩
    · rw [List.map_cons, List.mem_cons, ih]

theorem nodup_ids_standing (ran : List (String × Outcome)) :
    ((standing ran).map (·.1)).Nodup := by
  induction ran with
  | nil => exact List.nodup_nil
  | cons p rest ih =>
    obtain ⟨k, o⟩ := p
    rw [standing]
    split
    · exact ih
    · next hnew => exact List.nodup_cons.2 ⟨fun h => hnew ((mem_ids_standing k rest).1 h), ih⟩

/-- With distinct client ids all outcomes stand. -/
theorem standing_of_nodup {ran : List (String × Outcome)} (h : (ran.map (·.1)).Nodup) :
    standing ran = ran := by
  induction ran with
  | nil => rfl
  | cons p rest ih =>
    obtain ⟨k, o⟩ := p
    obtain ⟨hk, hrest⟩ := List.nodup_cons.1 h
    rw [standing, if_neg hk, ih hrest]

theorem mem_of_mem_standing {p : String × Outcome} {ran : List (String × Outcome)}
    (h : p ∈ standing ran) : p ∈ ran := by
  induction ran with
  | nil => cases h
  | cons q rest ih =>
    rw [standing] at h
    split at h
    · exact List.mem_cons_of_mem _ (ih h)
    · rcases List.mem_cons.1 h with rfl | h
      · exact List.mem_cons_self
      · exact List.mem_cons_of_mem _ (ih h)

/-- Outcomes put under their client ids one after the other. -/
def keepAll (outcomes : Dict Outcome) (ran : List (String × Outcome)) : Dict Outcome :=
  ran.foldl (fun kept p => kept.insert p.1 p.2) outcomes

theorem get?_keepAll (outcomes : Dict Outcome) (ran : List (String × Outcome)) (id : String) :
    (keepAll outcomes ran).get? id
      = (Keyed.find? id (standing ran)).or (outcomes.get? id) := by
  induction ran generalizing outcomes with
  | nil => rfl
  | cons p rest ih =>
    obtain ⟨k, o⟩ := p
    have hstep : (keepAll outcomes ((k, o) :: rest)).get? id
        = (Keyed.find? id (standing rest)).or (if k = id then some o else outcomes.get? id) := by
      rw [← Dict.get?_insert, ← ih]
      rfl
    rw [hstep, standing]
    by_cases hagain : k ∈ rest.map (·.1)
    · -- What is put under the client id is replaced later on.
      rw [if_pos hagain]
      by_cases hk : k = id
      · subst hk
        cases hfound : Keyed.find? k (standing rest) with
        | none => exact absurd ((mem_ids_standing k rest).2 hagain) (Keyed.find?_eq_none_iff.1 hfound)
        | some later => rfl
      · rw [if_neg hk]
    · -- What is put under the client id stays, as nothing that stands later has it.
      rw [if_neg hagain, Keyed.find?_cons]
      by_cases hk : k = id
      · subst hk
        have hnone : Keyed.find? k (standing rest) = none :=
          Keyed.find?_eq_none_iff.2 fun h => hagain ((mem_ids_standing k rest).1 h)
        rw [if_pos rfl, if_pos rfl, hnone]
        rfl
      · rw [if_neg hk, if_neg hk]

/-- What is kept is what stands. -/
theorem mem_kept_iff (ran : List (String × Outcome)) (p : String × Outcome) :
    p ∈ (keepAll ∅ ran).pairs ↔ p ∈ standing ran := by
  obtain ⟨id, o⟩ := p
  rw [← Dict.get?_eq_some_iff, get?_keepAll, Dict.get?_empty, Option.or_none,
    Keyed.find?_eq_some_iff (nodup_ids_standing ran)]

/-! ### A run -/

/-- Renders and validates components one after the other; yields the outcome of each that is
submitted, under its client id. -/
def submissions (e : Engine) :
    List (Component × Option String) → StateM Session (List (String × Outcome))
  | [] => pure []
  | (c, submitted) :: rest => do
    let (_, c) ← e.init c
    match submitted with
    | none => submissions e rest
    | some text => do
      let outcome ← e.submit c text
      let others ← submissions e rest
      pure ((c.clientId, outcome) :: others)

section

variable {e : Engine} {components : List (Component × Option String)}

/-- Validation keeps the outcomes of all submissions. -/
theorem validateAll_eq (outcomes : Dict Outcome) (s : Session) :
    validateAll e outcomes components s
      = (keepAll outcomes (submissions e components s).1, (submissions e components s).2) := by
  -- Both go through the components in the same order; only what they collect differs.
  induction components generalizing outcomes s with
  | nil => rfl
  | cons pair rest ih =>
    obtain ⟨c, submitted⟩ := pair
    cases submitted with
    | none => exact ih _ _
    | some text => exact ih _ _

/-- The client ids of the components that are submitted, in their order. -/
def submittedIds (components : List (Component × Option String)) : List String :=
  components.filterMap fun pair => pair.2.map fun _ => pair.1.clientId

theorem ids_submissions (h : e.initializers = Initializer.standard) (s : Session) :
    (submissions e components s).1.map (·.1) = submittedIds components := by
  induction components generalizing s with
  | nil => rfl
  | cons pair rest ih =>
    obtain ⟨c, submitted⟩ := pair
    cases submitted with
    | none => exact ih _
    | some text =>
      have hclient := Engine.clientId_init h c s
      have hrest := ih (e.submit (e.init c s).1.2 text (e.init c s).2).2
      exact congrArg₂ List.cons hclient hrest

/-- The submissions of a run report all their failures. -/
theorem reports_submissions (h : ∀ c, e.AddsNoMessages c) :
    Reports [] (fun ran => ran.flatMap fun p => p.2.failures) (submissions e components) := by
  induction components with
  | nil => exact Reports.pure rfl
  | cons pair rest ih =>
    obtain ⟨c, submitted⟩ := pair
    rw [submissions]
    refine (Engine.reports_init e c).bind fun rendered => ?_
    cases submitted with
    | none => exact ih
    | some text =>
      -- The later submissions report after this one, whatever it has reported.
      refine (Engine.reports_submit (h _) text).bind fun outcome => ?_
      exact ih.after.bind fun others => Reports.pure rfl

/-- What a validation finds, from its submissions and the objects that wait. -/
theorem findings_eq (request : FieldGuard.Request) :
    let ran := submissions e components (Session.start e request)
    findings e request components
      = { view := (e.drain ran.2).2.request.page.view
          outcomes := keepAll ∅ ran.1
          modelFailures := (e.drain ran.2).1
          messages := (e.drain ran.2).2.request.messages } := by
  intro ran
  rw [findings, validateAll_eq]
  rfl

/-- The messages of a validation are those of the failures of its submissions and of the objects
that wait. -/
theorem messages_findings (h : ∀ c, e.AddsNoMessages c) (request : FieldGuard.Request) :
    let ran := submissions e components (Session.start e request)
    (findings e request components).messages
      = request.messages
        ++ ((ran.1.flatMap fun p => p.2.failures)
          ++ (e.drain ran.2).1.map ModelFailure.failure).flatMap Failure.queued := by
  intro ran
  have hreports : Reports [] _ (submissions e components) := reports_submissions h
  have hsubmitted := hreports.messages (Session.start e request)
  have hdrained := (Engine.reports_drain e).messages ran.2
  rw [findings_eq]
  show (e.drain ran.2).2.request.messages = _
  rw [hdrained, hsubmitted, List.flatMap_append, List.append_assoc]
  rfl

end

theorem exists_invalid_iff (ran : List (String × Outcome)) :
    (∃ p ∈ ran, p.2.isValid = false) ↔ ¬ ∀ p ∈ ran, p.2.isValid = true := by
  simp

/-- A verdict on what stands is the right one on everything just when a failure comes with one
that the verdict sees. -/
theorem right_iff {succeeds all stands waiting : Prop} (h : succeeds ↔ stands ∧ waiting)
    (hall : all ∧ waiting → succeeds) :
    (succeeds ↔ all ∧ waiting) ↔ (¬ all → ¬ stands ∨ ¬ waiting) := by
  grind

/-- The engine of a run. -/
def engineOf (settings : Settings) (f : Fixture) : Engine :=
  EngineParts.engine { settings, types := .ofTypes f.types }

/-- Take a fixture whose components can be made. The report of its validation has the outcomes
whose client ids are not submitted again, and the validation succeeds just when none of these and
no object failed. That is the right verdict just when a failure that does not stand comes with
one that does, or with an object that fails. The messages are those of all failures, so there are
none just when nothing failed. If the client ids of the components that are submitted are
distinct, validation succeeds just when nothing failed, that is when there are no messages. -/
theorem validate_succeeds_iff (settings : Settings) {i : Invocation}
    (hcommand : i.command = .validate) {f : Fixture}
    {components : List (Component × Option String)}
    (hmade : Fixture.converted f.components = .ok components) :
    let e := engineOf settings f
    let ran := submissions e components (Session.start e (f.request i.view))
    let found := findings e (f.request i.view) components
    let succeeds := (runFixture settings i f).status = 0
    let nothingFails := (∀ p ∈ ran.1, p.2.isValid = true) ∧ (e.drain ran.2).1 = []
    runFixture settings i f = .ofFindings found ∧
    ran.1.map (·.1) = submittedIds components ∧
    (∀ p, p ∈ found.outcomes.pairs ↔ p ∈ standing ran.1) ∧
    (succeeds ↔ (∀ p ∈ standing ran.1, p.2.isValid = true) ∧ (e.drain ran.2).1 = []) ∧
    (nothingFails → succeeds) ∧
    ((succeeds ↔ nothingFails) ↔
      ((∃ p ∈ ran.1, p.2.isValid = false) →
        (∃ p ∈ standing ran.1, p.2.isValid = false) ∨ (e.drain ran.2).1 ≠ [])) ∧
    found.messages
      = ((ran.1.flatMap fun p => p.2.failures)
        ++ (e.drain ran.2).1.map ModelFailure.failure).flatMap Failure.queued ∧
    (found.messages = [] ↔ nothingFails) ∧
    ((submittedIds components).Nodup →
      (succeeds ↔ nothingFails) ∧ (succeeds ↔ found.messages = [])) := by
  intro e ran found succeeds nothingFails
  have hresult : runFixture settings i f = .ofFindings found := by
    rw [runFixture, hmade, hcommand]
    rfl
  have hids : ran.1.map (·.1) = submittedIds components := ids_submissions rfl _
  have hkept : ∀ p, p ∈ found.outcomes.pairs ↔ p ∈ standing ran.1 := by
    intro p
    show p ∈ (findings e (f.request i.view) components).outcomes.pairs ↔ _
    rw [findings_eq]
    exact mem_kept_iff ran.1 p
  have hwaiting : found.modelFailures = (e.drain ran.2).1 := by
    show (findings e (f.request i.view) components).modelFailures = _
    rw [findings_eq]
  have hsucceeds :
      succeeds ↔ (∀ p ∈ standing ran.1, p.2.isValid = true) ∧ (e.drain ran.2).1 = [] := by
    show (runFixture settings i f).status = 0 ↔ _
    rw [hresult, Result.status_validate, hwaiting, Dict.values, List.forall_mem_map]
    exact and_congr_left fun _ => forall_congr' fun p => imp_congr_left (hkept p)
  have hmessages : found.messages
      = ((ran.1.flatMap fun p => p.2.failures)
        ++ (e.drain ran.2).1.map ModelFailure.failure).flatMap Failure.queued :=
    messages_findings (Engine.addsNoMessages_of_standard rfl rfl) _
  have hnone : found.messages = [] ↔ nothingFails := by
    rw [hmessages, Failure.flatMap_queued_eq_nil_iff, List.append_eq_nil_iff, List.flatMap_eq_nil_iff,
      List.map_eq_nil_iff]
    simp only [Outcome.failures_eq_nil_iff]
    rfl
  have hright : nothingFails → succeeds := fun h =>
    hsucceeds.2 ⟨fun p hp => h.1 p (mem_of_mem_standing hp), h.2⟩
  refine ⟨hresult, hids, hkept, hsucceeds, hright, ?_, hmessages, hnone, fun hdistinct => ?_⟩
  · rw [exists_invalid_iff, exists_invalid_iff]
    exact right_iff hsucceeds hright
  · -- With distinct client ids no outcome is replaced, so the verdict is about all of them.
    have hstands : standing ran.1 = ran.1 := standing_of_nodup (hids ▸ hdistinct)
    rw [hstands] at hsucceeds
    exact ⟨hsucceeds, hsucceeds.trans hnone.symm⟩

/-- The validation of a fixture in its own view. -/
def validation : Invocation where
  command := .validate
  fixture := "order.yaml"

/-- A page for an order: a code that is required, submitted without text, and a note. The second
component has the given client id. -/
def orderFixture (noteId : String) : Fixture where
  view := "/order"
  types :=
    [{ name := "Order"
       properties := [(PropertyDecl.new "code").onField (.required none), .new "note"] }]
  beans := [("order", Record.ofType "Order")]
  components :=
    [{ component := { clientId := "form:code", valueBinding := some "#\x7border.code\x7d" }
       converter := none
       submitted := some "" },
     { component := { clientId := noteId, valueBinding := some "#\x7border.note\x7d" }
       converter := none
       submitted := some "by hand" }]

/-- The components of the page. -/
def orderComponents (noteId : String) : List (Component × Option String) :=
  (orderFixture noteId).components.map fun c => (c.component, c.submitted)

/-- With two client ids the missing code makes the validation fail. -/
theorem validate_succeeds_iff_order :
    validation.command = .validate ∧
    Fixture.converted (orderFixture "form:note").components = .ok (orderComponents "form:note") ∧
    (submittedIds (orderComponents "form:note")).Nodup ∧
    (runFixture {} validation (orderFixture "form:note")).status ≠ 0 := by
  have hmade : Fixture.converted (orderFixture "form:note").components
      = .ok (orderComponents "form:note") := rfl
  obtain ⟨-, -, -, -, -, -, -, -, hdistinct⟩ := validate_succeeds_iff {} (i := validation) rfl hmade
  have hnodup : (submittedIds (orderComponents "form:note")).Nodup := by decide
  refine ⟨rfl, hmade, hnodup, fun hsucceeds => ?_⟩
  have hmessages := (hdistinct hnodup).2.1 hsucceeds
  have hlength : (findings (engineOf {} (orderFixture "form:note"))
      ((orderFixture "form:note").request validation.view)
      (orderComponents "form:note")).messages.length = 1 := by
    decide +kernel
  rw [hmessages] at hlength
  cases hlength

/-- If both components have one client id, the outcome of the note replaces the failure of the
code. The validation succeeds, though the user gets the message of the failure. -/
theorem validate_overlooks_failure :
    let e := engineOf {} (orderFixture "form:code")
    let request := (orderFixture "form:code").request none
    let components := orderComponents "form:code"
    (runFixture {} validation (orderFixture "form:code")).status = 0 ∧
    ((submissions e components (Session.start e request)).1.map fun p => p.2.isValid)
      = [false, true] ∧
    (findings e request components).messages
      = [⟨some "form:code", .error "Value is required"⟩] := by
  decide +kernel

end CommandLine

end FieldGuard
