import FieldGuard.Proofs.History

/-!
# `FieldGuard.Proofs.Runs`: failures and messages are in step over whole runs

A run is a list of calls for one request: components are rendered and submitted, and the queue
of model validations is drained, in any order. Each call adds the messages of the failures it
returns (`Call.messages_run`), so by induction over the calls the messages of the request are
those of all failures of the run, in the order of the calls.

The stage of a component shows the outcome of its submission as well. There is one way out: a
component whose property cannot be resolved is valid without a validation, and stays at the stage
at which the recorders leave it. They are given it as converted; `Engine.RecordsFailed` says that
they have put it at `failed` themselves.

* `Call.messages_runAll`: the messages of a run;
* `Engine.stage_submit_iff`: when the stage after a submission shows the outcome;
* `run_queues_failures`: both over any run;
* `submit_valid_at_failed`: a recorder that puts components at `failed`.
-/

set_option autoImplicit false

namespace FieldGuard

namespace Call

/-- The failures that a call returns. -/
def failures (e : Engine) : Call → Session → List Failure
  | .init _, _ => []
  | .submit c text, s => (e.submit c text s).1.failures
  | .drain, s => (e.drain s).1.map ModelFailure.failure

/-- The session after calls, one after the other. -/
def runAll (e : Engine) : List Call → Session → Session
  | [], s => s
  | call :: rest, s => runAll e rest (call.run e s)

/-- The failures that the calls of a run return, in the order of the calls. -/
def failuresAll (e : Engine) : List Call → Session → List Failure
  | [], _ => []
  | call :: rest, s => call.failures e s ++ failuresAll e rest (call.run e s)

/-- A call adds the messages of its failures. -/
theorem messages_run {e : Engine} (h : ∀ c, e.AddsNoMessages c) (call : Call) (s : Session) :
    (call.run e s).request.messages
      = s.request.messages ++ (call.failures e s).flatMap Failure.queued := by
  cases call with
  | init c => exact (Engine.reports_init e c).messages s
  | submit c text => exact (Engine.reports_submit (h c) text).messages s
  | drain => exact (Engine.reports_drain e).messages s

theorem messages_runAll {e : Engine} (h : ∀ c, e.AddsNoMessages c) (calls : List Call)
    (s : Session) :
    (runAll e calls s).request.messages
      = s.request.messages ++ (failuresAll e calls s).flatMap Failure.queued := by
  induction calls generalizing s with
  | nil =>
    rw [failuresAll, List.flatMap_nil, List.append_nil]
    rfl
  | cons call rest ih =>
    rw [runAll, ih, messages_run h, failuresAll, List.flatMap_append, List.append_assoc]

end Call

namespace Engine

variable {e : Engine} {c : Component} {text : String}

/-- The recorders themselves put a component at `failed` whose property is not resolved in the
request that they leave. -/
def RecordsFailed (e : Engine) (c : Component) (text : String) (r : Request) : Prop :=
  c.editable = true ∧ ∃ value, c.convert text = .ok value ∧
    e.bound? (e.recorded c value r) c = none ∧
    (e.recorded c value r).stages.get? c.clientId = some .failed

/-- The standard recorder leaves the stages alone. -/
theorem not_recordsFailed_of_standard (h : e.recorders = [.standard]) (r : Request) :
    ¬ e.RecordsFailed c text r := by
  rintro ⟨-, value, -, -, hstage⟩
  obtain ⟨recorded, heq⟩ := recordAll_eq h c value
    ((r.setStage c.clientId .rawInput).setStage c.clientId .converted)
  rw [Engine.recorded, heq] at hstage
  have hconverted := Dict.get?_insert_self (r.setStage c.clientId .rawInput).stages c.clientId
    Stage.converted
  exact absurd (hconverted.symm.trans hstage) (by simp)

/-- After a submission the component is at `failed` just when the outcome is a failure, unless
the recorders have put it there. -/
theorem stage_submit_iff {s : Session} :
    ((e.submit c text s).2.request.stages.get? c.clientId = some .failed ↔
      (e.submit c text s).1.isValid = false) ↔ ¬ e.RecordsFailed c text s.request := by
  cases heditable : c.editable with
  | false =>
    rw [submit_of_not_editable heditable]
    have hstage := Dict.get?_insert_self s.request.stages c.clientId Stage.rawInput
    show ((s.request.stages.insert c.clientId .rawInput).get? c.clientId = _ ↔ _) ↔ _
    rw [hstage]
    simp [Outcome.isValid, RecordsFailed, heditable]
  | true =>
    cases hconvert : c.convert text with
    | error fault =>
      rw [submit_of_refused heditable hconvert]
      have hstage : (refuse c fault (Session.setStage c.clientId .rawInput s).2).2.request.stages.get?
          c.clientId = some .failed := Dict.get?_insert_self _ _ _
      have hfailed : (refuse c fault (Session.setStage c.clientId .rawInput s).2).1.isValid
          = false := rfl
      simp [hstage, hfailed, RecordsFailed, hconvert]
    | ok value =>
      rw [submit_of_converted heditable hconvert]
      cases hbound : e.bound? (e.recorded c value s.request) c with
      | none =>
        -- Nothing puts the component at another stage after the recorders.
        have hrecords : e.RecordsFailed c text s.request ↔
            (e.recorded c value s.request).stages.get? c.clientId = some .failed := by
          simp [RecordsFailed, heditable, hconvert, hbound]
        rw [hrecords]
        show ((e.recorded c value s.request).stages.get? c.clientId = _ ↔
          Outcome.valid.isValid = false) ↔ _
        simp [Outcome.isValid]
      | some b =>
        have hrecords : ¬ e.RecordsFailed c text s.request := by
          simp [RecordsFailed, hconvert, hbound]
        refine iff_of_true ?_ hrecords
        show (e.validateHooked c b _ _).2.request.stages.get? c.clientId = _ ↔
          (e.validateHooked c b _ _).1.isValid = false
        rw [stage_validateHooked]
        cases (e.validateHooked c b (interpreted e.env.settings value)
          ⟨s.plugins, e.recorded c value s.request⟩).1.isValid <;> simp

end Engine

/-- Failures and messages are in step. Take an engine whose recorders and hooks add no messages,
and any calls for any request. The messages that the calls add are those of the failures they
return: for each submission that fails, and for each object that fails when the queue is
drained, the message and then the additional ones under the client id of the failure, in the
order of the calls. A submission that comes next fails under the client id of its component, if
it fails. The component is at `failed` then, and otherwise it is not, just when no recorder has
put it there; `submit_valid_at_failed` has one that does. -/
theorem run_queues_failures {e : Engine} (h : ∀ c, e.AddsNoMessages c) (calls : List Call)
    (s : Session) :
    let t := Call.runAll e calls s
    t.request.messages
      = s.request.messages ++ (Call.failuresAll e calls s).flatMap Failure.queued ∧
    ∀ c text,
      (∀ failure ∈ Call.failures e (.submit c text) t, failure.clientId = c.clientId) ∧
      (((e.submit c text t).2.request.stages.get? c.clientId = some .failed ↔
        (e.submit c text t).1.isValid = false) ↔ ¬ e.RecordsFailed c text t.request) := by
  intro t
  refine ⟨Call.messages_runAll h calls s, fun c text => ⟨?_, Engine.stage_submit_iff⟩⟩
  intro failure hfailure
  cases houtcome : (e.submit c text t).1 with
  | valid => simp [Call.failures, houtcome, Outcome.failures, Outcome.failure?] at hfailure
  | failed other =>
    have hsame : failure = other := by
      simpa [Call.failures, houtcome, Outcome.failures, Outcome.failure?] using hfailure
    rw [hsame]
    exact Engine.clientId_of_submit houtcome

/-! ### A form that is sent twice -/

/-- A signup is validated as a whole after each field, and needs a name. -/
def signupParts : EngineParts where
  types := .ofTypes
    [{ name := "Signup"
       annotations := [.controller { modelValidation := { isActive := true } }]
       properties := [(PropertyDecl.new "name").onField (.constraint { rule := .notNull })] }]

/-- A page with a signup that has no name yet. -/
def signupPage : Request :=
  .new "/signup" (Dict.ofList [("signup", .object (Record.ofType "Signup"))])

/-- The field for the name. -/
def signupField : Component where
  clientId := "form:name"
  valueBinding := some "#\x7bsignup.name\x7d"

/-- The field is rendered, submitted without a name and then with one, and the queue is drained:
the first submission fails, and so does the object, as the name is not written back. -/
theorem run_queues_failures_signup :
    let e := signupParts.engine
    let s := Session.start e signupPage
    let calls := [Call.init signupField, .submit signupField "", .submit signupField "Ada", .drain]
    (Call.failuresAll e calls s).length = 2 ∧
    (Call.runAll e calls s).request.messages
      = (Call.failuresAll e calls s).flatMap Failure.queued ∧
    (e.submit signupField "" (Call.runAll e calls s)).2.request.stages.get? "form:name"
      = some .failed := by
  intro e s calls
  have hsilent : ∀ c, e.AddsNoMessages c := Engine.addsNoMessages_of_standard rfl rfl
  obtain ⟨hmessages, hnext⟩ := run_queues_failures hsilent calls s
  have hstage := (hnext signupField "").2.2 (Engine.not_recordsFailed_of_standard rfl _)
  refine ⟨by decide +kernel, hmessages, hstage.2 (by decide +kernel)⟩

/-! ### A recorder that sets a stage -/

/-- A recorder that puts every component that it sees at `failed`. -/
def failedRecorder : Recorder where
  record _ c _ r := r.setStage c.clientId .failed

/-- It adds no messages. A field that is bound to nothing is valid without a validation, and stays
where the recorder has put it. -/
theorem submit_valid_at_failed :
    let e := { signupParts with recorders := [failedRecorder] }.engine
    let s := Session.start e signupPage
    let c : Component := { clientId := "form:nick", valueBinding := some "#\x7bnobody.nick\x7d" }
    (∀ c, e.AddsNoMessages c) ∧ (e.submit c "Ada" s).1.isValid = true ∧
    (e.submit c "Ada" s).2.request.messages = [] ∧
    (e.submit c "Ada" s).2.request.stages.get? c.clientId = some .failed ∧
    ¬ ((e.submit c "Ada" s).2.request.stages.get? c.clientId = some .failed ↔
      (e.submit c "Ada" s).1.isValid = false) := by
  intro e s c
  have hvalid : (e.submit c "Ada" s).1.isValid = true := by decide +kernel
  have hstage : (e.submit c "Ada" s).2.request.stages.get? c.clientId = some .failed := by
    decide +kernel
  have hsilent : ∀ c, e.AddsNoMessages c :=
    fun c => Engine.addsNoMessages_of_unhooked rfl fun _ _ => rfl
  have hmessages : (e.submit c "Ada" s).2.request.messages.isEmpty = true := by decide +kernel
  refine ⟨hsilent, hvalid, List.isEmpty_iff.1 hmessages, hstage, fun hiff => ?_⟩
  rw [hiff.1 hstage] at hvalid
  exact absurd hvalid (by decide)

end FieldGuard
