import FieldGuard.Proofs.Submit

/-!
# `FieldGuard.Proofs.Messages`: the messages of a call are those of its failures

Messages are queued at three places: for a text that does not convert, for the violations of a
field, and for those of a whole object. Each of them hands the failure back as well, so what is
queued can be told from what is returned. `Reports` says so of a computation: it starts when
some failures have been reported, and its result holds these and the ones whose messages it has
added. That goes through sequential composition, as the earlier failures of the second
computation are those in the result of the first.

* `Engine.AddsNoMessages`: recorders and hooks that only look on;
* `Engine.reports_submit`, `Engine.reports_drain`: calls report the failures they return;
* `Engine.report_of_submit`: what a submission fails with, if its text converts, is a report;
* `Engine.clientId_of_submit`: the failure of a submission carries the client id of the component;
* `Engine.stage_validateHooked`: a validated component ends at the stage of its outcome.
-/

set_option autoImplicit false

namespace FieldGuard

/-- The messages of a failure as they are queued. -/
def Failure.queued (f : Failure) : List QueuedMessage :=
  f.messages.map fun message => ⟨some f.clientId, message⟩

/-- The failures of an outcome. -/
def Outcome.failures (o : Outcome) : List Failure :=
  o.failure?.toList

section

variable {α β : Type} {earlier : List Failure} {failures : β → List Failure}

/-- The computation adds the messages of failures, in their order and no other messages. Its
result has these failures after the earlier ones. -/
def Reports (earlier : List Failure) (failures : α → List Failure) (x : StateM Session α) :
    Prop :=
  ∀ s, ∃ added,
    (x s).2.request.messages = s.request.messages ++ added.flatMap Failure.queued ∧
    failures (x s).1 = earlier ++ added

namespace Reports

theorem pure {b : β} (h : failures b = earlier) : Reports earlier failures (Pure.pure b) := by
  intro s
  refine ⟨[], ?_, ?_⟩
  · rw [List.flatMap_nil, List.append_nil]
    rfl
  · rw [List.append_nil]
    exact h

/-- The second computation starts with all failures that the first one ends with. -/
theorem bind {reported : α → List Failure} {x : StateM Session α} {f : α → StateM Session β}
    (hx : Reports earlier reported x) (hf : ∀ a, Reports (reported a) failures (f a)) :
    Reports earlier failures (x >>= f) := by
  intro s
  obtain ⟨first, hmessages, hfirst⟩ := hx s
  obtain ⟨second, hmessages', hsecond⟩ := hf (x s).1 (x s).2
  refine ⟨first ++ second, ?_, ?_⟩
  · rw [run_bind, hmessages', hmessages, List.flatMap_append, List.append_assoc]
  · rw [run_bind, hsecond, hfirst, List.append_assoc]

theorem silent {x : StateM Session α}
    (h : ∀ s, (x s).2.request.messages = s.request.messages) :
    Reports earlier (fun _ => earlier) x := by
  intro s
  refine ⟨[], ?_, (List.append_nil earlier).symm⟩
  rw [List.flatMap_nil, List.append_nil]
  exact h s

theorem change {f : Request → Request} (h : ∀ r, (f r).messages = r.messages) :
    Reports earlier (fun _ => earlier) (Session.change f) :=
  silent fun s => h s.request

theorem run {f : Request → α × Request} (h : ∀ r, (f r).2.messages = r.messages) :
    Reports earlier (fun _ => earlier) (Session.run f) :=
  silent fun s => h s.request

theorem setStage (clientId : String) (stage : Stage) :
    Reports earlier (fun _ => earlier) (Session.setStage clientId stage) :=
  change fun _ => rfl

theorem current : Reports earlier (fun _ => earlier) Session.current :=
  silent fun _ => rfl

theorem lookup (find : StateM Plugins α) :
    Reports earlier (fun _ => earlier) (Session.lookup find) :=
  silent fun _ => rfl

/-- What a computation reports does not depend on the failures before it. -/
theorem after {x : StateM Session β} (h : Reports [] failures x) :
    Reports earlier (fun b => earlier ++ failures b) x := by
  intro s
  obtain ⟨added, hmessages, hadded⟩ := h s
  exact ⟨added, hmessages, congrArg (earlier ++ ·) hadded⟩

theorem messages {x : StateM Session β} (h : Reports [] failures x) (s : Session) :
    (x s).2.request.messages
      = s.request.messages ++ (failures (x s).1).flatMap Failure.queued := by
  obtain ⟨added, hmessages, hadded⟩ := h s
  rw [hmessages, hadded, List.nil_append]

end Reports

end

namespace Engine

/-- For a component, the recorders and the hooks add no messages of their own. -/
structure AddsNoMessages (e : Engine) (c : Component) : Prop where
  record : ∀ value r, (Recorder.recordAll e.recorders e.env c value r).messages = r.messages
  before : ∀ value info r, (Hook.runBefore c value info e.hooks r).2.messages = r.messages
  after : ∀ value info r, (Hook.runAfter c value info e.hooks r).messages = r.messages

/-- Without hooks, all depends on the recorders. -/
theorem addsNoMessages_of_unhooked {e : Engine} (h : e.hooks = []) {c : Component}
    (hrecord : ∀ v r, (Recorder.recordAll e.recorders e.env c v r).messages = r.messages) :
    e.AddsNoMessages c where
  record := hrecord
  before _ _ _ := by
    rw [h]
    rfl
  after _ _ _ := by
    rw [h]
    rfl

/-- The standard recorder adds none. -/
theorem addsNoMessages_of_standard {e : Engine} (hhooks : e.hooks = [])
    (hrecorders : e.recorders = [.standard]) (c : Component) : e.AddsNoMessages c := by
  refine addsNoMessages_of_unhooked hhooks fun v r => ?_
  obtain ⟨recorded, heq⟩ := recordAll_eq hrecorders c v r
  rw [heq]

variable {e : Engine}

/-! ### Reports -/

/-- A failure is reported under the client id of the component. -/
theorem clientId_of_report {i : Identity} {violations : List Violation} {p : Plugins}
    {failure : Failure} (h : (e.report i violations p).1 = some failure) :
    failure.clientId = i.clientId := by
  cases violations with
  | nil => simp [report_nil] at h
  | cons first rest =>
    rw [report_cons] at h
    split at h
    · cases h
      rfl
    · cases h

theorem reports_reportIn (i : Identity) (violations : List Violation) :
    Reports [] Option.toList (e.reportIn i violations) := by
  intro s
  refine ⟨(e.reportIn i violations s).1.toList, ?_, rfl⟩
  rw [reportIn_snd, reportIn_fst]
  cases hfound : (e.report i violations s.plugins).1 with
  | none => rfl
  | some failure =>
    show s.request.messages ++ _ = _
    rw [Option.toList_some, List.flatMap_singleton, Failure.queued, clientId_of_report hfound]
    rfl

/-! ### Submissions -/

theorem reports_violations (c : Component) (b : Bound) (value : Value) :
    Reports [] (fun _ => []) (e.violations c b value) := by
  refine Reports.silent fun s => ?_
  rw [violations_snd]
  exact Groups.messages_resolve e.env c.identity b.details true s.request

theorem reports_validate (c : Component) (b : Bound) (value : Value) :
    Reports [] (fun result => result.1.toList) (e.validate c b value) := by
  rw [validate]
  refine (reports_violations c b value).bind fun found => ?_
  cases found with
  | nil => exact Reports.pure rfl
  | cons first rest => exact (reports_reportIn _ _).bind fun _ => Reports.pure rfl

theorem failures_outcomeOf (failure : Option Failure) :
    (outcomeOf failure).failures = failure.toList := by
  cases failure <;> rfl

theorem reports_validateHooked {c : Component} (h : e.AddsNoMessages c) (b : Bound)
    (value : Value) : Reports [] Outcome.failures (e.validateHooked c b value) := by
  -- Whether the value was validated or not, the hooks add nothing to what is reported.
  have hlast : ∀ result : Option Failure × PropertyInfo,
      Reports result.1.toList Outcome.failures (do
        Session.change (Hook.runAfter c value result.2 e.hooks)
        Session.setStage c.clientId (if result.1.isSome then .failed else .valid)
        pure (outcomeOf result.1)) :=
    fun result => (Reports.change (h.after value result.2)).bind fun _ =>
      (Reports.setStage _ _).bind fun _ => Reports.pure (failures_outcomeOf _)
  rw [validateHooked]
  refine (Reports.run (h.before value b.info)).bind fun agreed => ?_
  cases agreed with
  | false => exact hlast (none, b.info)
  | true => exact (reports_validate c b value).bind hlast

theorem reports_refuse (c : Component) (fault : ConversionFault) :
    Reports [] Outcome.failures (refuse c fault) := by
  intro s
  exact ⟨[conversionFailure c fault], Request.messages_addMessages _ _ _, rfl⟩

/-- A submission reports its outcome. -/
theorem reports_submit {c : Component} (h : e.AddsNoMessages c) (text : String) :
    Reports [] Outcome.failures (e.submit c text) := by
  rw [submit]
  refine (Reports.setStage _ _).bind fun _ => ?_
  cases c.editable with
  | false => exact Reports.pure rfl
  | true =>
    cases c.convert text with
    | error fault => exact reports_refuse c fault
    | ok value =>
      refine (Reports.setStage _ _).bind fun _ =>
        (Reports.change (h.record value)).bind fun _ =>
          Reports.current.bind fun r => ?_
      cases e.bound? r c with
      | none => exact Reports.pure rfl
      | some b => exact reports_validateHooked h b _

/-- The outcome of a validation is a report for the component, if there is one. The registries have
come to it by look-ups. -/
theorem outcome_validateHooked_cases {I : Plugins → Prop} (hI : Plugins.Stable I) (c : Component)
    (b : Bound) (value : Value) {s : Session} (hs : I s.plugins) :
    (e.validateHooked c b value s).1 = .valid ∨ ∃ violations p, I p ∧
      (e.validateHooked c b value s).1 = outcomeOf (e.report c.identity violations p).1 := by
  rw [validateHooked, run_bind]
  cases (Session.run (Hook.runBefore c value b.info e.hooks) s).1 with
  | false => exact Or.inl rfl
  | true =>
    let t := (Session.run (Hook.runBefore c value b.info e.hooks) s).2
    have ht : t.Has I fun _ => True := ⟨hs, trivial⟩
    have hreport : (e.validate c b value t).1.1
        = (e.report c.identity (e.violations c b value t).1
            (e.violations c b value t).2.plugins).1 := by
      rw [← reportIn_fst]
      exact congrArg Prod.fst (e.validate_eq c b value t)
    exact Or.inr ⟨_, _, (keeps_violations hI (e.frame_true c) b value t ht).1,
      congrArg outcomeOf hreport⟩

/-- A submission fails because its text does not convert, or with what is reported for the
component. -/
theorem report_of_submit {I : Plugins → Prop} (hI : Plugins.Stable I) {c : Component}
    {text : String} {s : Session} (hs : I s.plugins) {failure : Failure}
    (h : (e.submit c text s).1 = .failed failure) :
    (∃ fault, failure = conversionFailure c fault) ∨
      ∃ violations p, I p ∧ (e.report c.identity violations p).1 = some failure := by
  cases heditable : c.editable with
  | false => simp [submit_of_not_editable heditable] at h
  | true =>
    cases hconvert : c.convert text with
    | error fault =>
      rw [submit_of_refused heditable hconvert] at h
      cases h
      exact Or.inl ⟨fault, rfl⟩
    | ok value =>
      rw [submit_of_converted heditable hconvert] at h
      cases hbound : e.bound? (e.recorded c value s.request) c with
      | none => simp [hbound, run_pure] at h
      | some b =>
        rw [hbound] at h
        obtain hvalid | ⟨violations, p, hp, houtcome⟩ := outcome_validateHooked_cases hI c b
          (interpreted e.env.settings value) (s := ⟨s.plugins, e.recorded c value s.request⟩) hs
        · exact absurd (hvalid.symm.trans h) (by simp)
        · have hfailed := houtcome.symm.trans h
          refine Or.inr ⟨violations, p, hp, ?_⟩
          cases hreport : (e.report c.identity violations p).1 with
          | none => simp [hreport, outcomeOf] at hfailed
          | some reported =>
            simp only [hreport, outcomeOf, Outcome.failed.injEq] at hfailed
            rw [hfailed]

/-- The failure of a submission carries the client id of the component. -/
theorem clientId_of_submit {c : Component} {text : String} {s : Session} {failure : Failure}
    (h : (e.submit c text s).1 = .failed failure) : failure.clientId = c.clientId := by
  obtain ⟨fault, rfl⟩ | ⟨violations, p, -, hreport⟩ := report_of_submit Plugins.stable_true trivial h
  · rfl
  · exact clientId_of_report hreport

/-- A submission adds the messages of its outcome and no others, when recorders and hooks add
none. -/
theorem messages_submit {c : Component} (h : e.AddsNoMessages c) (submitted : String)
    (s : Session) :
    (e.submit c submitted s).2.request.messages
      = s.request.messages ++ (e.submit c submitted s).1.queued c.clientId := by
  rw [(reports_submit h submitted).messages s]
  congr 1
  cases houtcome : (e.submit c submitted s).1 with
  | valid => rfl
  | failed failure =>
    rw [Outcome.queued, ← clientId_of_submit houtcome]
    exact List.flatMap_singleton _ _

/-! ### Stages -/

/-- A validated component ends at the stage of its outcome. -/
theorem stage_validateHooked (c : Component) (b : Bound) (value : Value) (s : Session) :
    (e.validateHooked c b value s).2.request.stages.get? c.clientId
      = some (if (e.validateHooked c b value s).1.isValid then .valid else .failed) := by
  have hlast : ∀ (result : Option Failure × PropertyInfo) (s : Session),
      let t := (do
        Session.change (Hook.runAfter c value result.2 e.hooks)
        Session.setStage c.clientId (if result.1.isSome then .failed else .valid)
        pure (outcomeOf result.1) : StateM Session Outcome) s
      t.2.request.stages.get? c.clientId = some (if t.1.isValid then .valid else .failed) := by
    intro result s
    cases result.1 with
    | none => exact Dict.get?_insert_self _ _ _
    | some failure => exact Dict.get?_insert_self _ _ _
  rw [validateHooked, run_bind]
  cases (Session.run (Hook.runBefore c value b.info e.hooks) s).1 with
  | false => exact hlast (none, b.info) _
  | true => exact hlast _ _

/-! ### Whole objects and rendering -/

theorem reports_validateTargets (d : ModelDemand) (targets : List Bean) :
    Reports [] (fun found => found.map ModelFailure.failure) (e.validateTargets d targets) := by
  induction targets with
  | nil => exact Reports.pure rfl
  | cons target rest ih =>
    have hone : Reports [] (fun found => found.toList.map ModelFailure.failure)
        (e.validateTarget d target) := by
      refine (reports_reportIn _ _).bind fun failure => Reports.pure ?_
      cases failure <;> rfl
    exact hone.bind fun _ => ih.after.bind fun _ => Reports.pure List.map_append

theorem reports_validateDemands (ds : List ModelDemand) :
    Reports [] (fun found => found.map ModelFailure.failure) (e.validateDemands ds) := by
  induction ds with
  | nil => exact Reports.pure rfl
  | cons d rest ih =>
    rw [validateDemands]
    refine Reports.current.bind fun r => ?_
    cases d.groups.isEmpty with
    | true => exact ih.bind fun _ => Reports.pure rfl
    | false =>
      exact (reports_validateTargets d _).bind fun _ => ih.after.bind fun _ =>
        Reports.pure List.map_append

/-- Draining the queue reports the failures of the objects. -/
theorem reports_drain (e : Engine) :
    Reports [] (fun found => found.map ModelFailure.failure) e.drain :=
  (Reports.run fun _ => rfl).bind fun _ => reports_validateDemands _

/-- Rendering reports nothing. -/
theorem reports_init (e : Engine) (c : Component) : Reports [] (fun _ => []) (e.init c) := by
  have hconfigure : ∀ b, Reports [] (fun _ => []) (e.configure c b) := by
    intro b
    have hconstraints : Reports [] (fun _ => []) (e.constraintMetadata c b) :=
      (Reports.run (Groups.messages_resolve e.env c.identity b.details false)).bind fun _ =>
        Reports.current.bind fun _ => Reports.lookup _
    exact Reports.current.bind fun _ => (Reports.lookup _).bind fun _ => hconstraints.bind fun _ =>
      (Reports.setStage _ _).bind fun _ => Reports.pure rfl
  rw [init]
  refine (Reports.setStage _ _).bind fun _ => Reports.current.bind fun r => ?_
  cases e.extract r c with
  | error fault => exact Reports.pure rfl
  | ok info =>
    refine (Reports.setStage _ _).bind fun _ => ?_
    cases Bound.of? info with
    | none => exact Reports.pure rfl
    | some b => exact hconfigure b

end Engine

end FieldGuard
