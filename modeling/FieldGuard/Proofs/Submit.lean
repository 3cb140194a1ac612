import FieldGuard.Proofs.Groups
import FieldGuard.Proofs.Keeps

/-!
# `FieldGuard.Proofs.Submit`: the run of a submission, step by step

A submission leads from one session to the next. This module says what it computes from
the session it starts in, so that later arguments need not look at its steps again.

* `Engine.submit_of_converted`: an editable component whose text converts is validated on
  the request as the recorders leave it;
* `Engine.outcome_validateHooked`: without hooks the outcome is the report of all
  violations;
* `Engine.init_of_bound_none`: rendering has nothing to configure if the property of the
  component is not resolved.
-/

set_option autoImplicit false

namespace FieldGuard

/-- The messages that an outcome adds to the request of a component. -/
def Outcome.queued (clientId : String) (o : Outcome) : List QueuedMessage :=
  ((o.failure?.map Failure.messages).getD []).map fun message => ⟨some clientId, message⟩

/-- Adding messages changes nothing but the messages. -/
theorem Request.addMessages_eq (r : Request) (clientId : String) (messages : List Message) :
    r.addMessages clientId messages
      = { r with messages := r.messages ++ messages.map fun message => ⟨some clientId, message⟩ } := by
  induction messages generalizing r with
  | nil => simp [addMessages]
  | cons m rest ih =>
    have hrest := ih (r.addMessage clientId m)
    rw [addMessages, List.foldl_cons, ← addMessages, hrest]
    simp [addMessage]

/-- Of two stages the later one counts. -/
theorem Request.setStage_setStage (r : Request) (clientId : String) (first second : Stage) :
    (r.setStage clientId first).setStage clientId second = r.setStage clientId second := by
  have hstages : (r.stages.insert clientId first).insert clientId second
      = r.stages.insert clientId second := by
    refine Dict.ext_get? fun k => ?_
    simp only [Dict.get?_insert]
    split <;> rfl
  simp only [setStage, hstages]

namespace Engine

/-- The request that a converted value is validated on: the component has come to its
conversion, and the recorders have seen the value. -/
def recorded (e : Engine) (c : Component) (value : Value) (r : Request) : Request :=
  Recorder.recordAll e.recorders e.env c value
    ((r.setStage c.clientId .rawInput).setStage c.clientId .converted)

/-- The standard recorder alone changes nothing but the recorded values. -/
theorem recordAll_eq {e : Engine} (h : e.recorders = [.standard]) (c : Component) (value : Value)
    (r : Request) :
    ∃ recorded, Recorder.recordAll e.recorders e.env c value r = { r with recorded } := by
  rw [h]
  show ∃ recorded, Recorder.recordUnderProperty e.env c value r = { r with recorded }
  unfold Recorder.recordUnderProperty
  cases c.valueBinding with
  | none => exact ⟨r.recorded, rfl⟩
  | some text => exact ⟨_, rfl⟩

/-- With the standard extractor, what is known about a component depends on the page alone. -/
theorem bound?_of_page {e : Engine} (h : e.extractor = .standard) {r r' : Request}
    (hpage : r.page = r'.page) (c : Component) : e.bound? r c = e.bound? r' c := by
  have hextract : e.extract r c = e.extract r' c := by
    rw [extract, extract, h]
    show Extraction.extract e.env r.page _ = Extraction.extract e.env r'.page _
    rw [hpage]
  rw [bound?, bound?, hextract]

/-- Rendering a component whose property is not resolved does no more than set its stage. -/
theorem init_of_bound_none {e : Engine} {c : Component} {s : Session}
    (h : e.bound? (s.request.setStage c.clientId .init) c = none) :
    ∃ stage, e.init c s = ((∅, c), { s with request := s.request.setStage c.clientId stage }) := by
  have hcurrent : (Session.current (Session.setStage c.clientId .init s).2).1
      = s.request.setStage c.clientId .init := rfl
  rw [bound?] at h
  rw [init, run_bind, run_bind, hcurrent]
  cases hextract : e.extract (s.request.setStage c.clientId .init) c with
  | error fault => exact ⟨.init, rfl⟩
  | ok info =>
    rw [hextract] at h
    dsimp only at h ⊢
    -- The stage after the extraction takes the place of the first one.
    refine ⟨.metadataExtracted, ?_⟩
    rw [run_bind, h, ← Request.setStage_setStage s.request c.clientId .init .metadataExtracted]
    rfl

/-- What the constraint engine finds wrong with a value in the given groups. -/
def constrained (e : Engine) (b : Bound) (value : Value) (groups : List String) :
    List Violation :=
  if groups.isEmpty then []
  else e.env.constraints.validateValue b.owner.typeName b.details.property value groups

section

variable {e : Engine} {c : Component} {submitted : String}

/-! ### The four ways of a submission -/

theorem submit_of_not_editable (h : c.editable = false) (s : Session) :
    e.submit c submitted s = (.valid, (Session.setStage c.clientId .rawInput s).2) := by
  rw [submit, h]
  rfl

theorem submit_of_refused (h : c.editable = true) {fault : ConversionFault}
    (hconvert : c.convert submitted = .error fault) (s : Session) :
    e.submit c submitted s
      = refuse c fault (Session.setStage c.clientId .rawInput s).2 := by
  rw [submit, h, hconvert]
  rfl

/-- An editable component whose text converts is validated on the request as the recorders
leave it, if its property is resolved then. -/
theorem submit_of_converted (h : c.editable = true) {value : Value}
    (hconvert : c.convert submitted = .ok value) (s : Session) :
    e.submit c submitted s
      = (match e.bound? (e.recorded c value s.request) c with
        | none => (pure .valid : StateM Session Outcome)
        | some b => e.validateHooked c b (interpreted e.env.settings value))
          ⟨s.plugins, e.recorded c value s.request⟩ := by
  rw [submit, h, hconvert]
  rfl

end

/-! ### Violations and their report -/

variable (e : Engine) (c : Component) (b : Bound) (value : Value)

/-- The violations come from the strategies and, in the groups of the component, from the
constraint engine. -/
theorem violations_fst (s : Session) :
    (e.violations c b value s).1
      = (strategyViolations e.env s.request b value b.info.entries s.plugins).1
        ++ e.constrained b value (Groups.resolve e.env c.identity b.details true s.request).1 := rfl

/-- Finding violations leaves what the strategies have looked up, and resolves the groups. -/
theorem violations_snd (s : Session) :
    (e.violations c b value s).2
      = ⟨(strategyViolations e.env s.request b value b.info.entries s.plugins).2,
          ((Groups.resolve e.env c.identity b.details true s.request).2.setStage c.clientId
            .groupsResolved).setStage c.clientId .validated⟩ := rfl

theorem reportIn_fst (i : Identity) (violations : List Violation) (s : Session) :
    (e.reportIn i violations s).1 = (e.report i violations s.plugins).1 := by
  rw [reportIn, run_bind]
  show _ = (Session.lookup (e.report i violations) s).1
  cases (Session.lookup (e.report i violations) s).1 with
  | none => rfl
  | some failure => rfl

/-- A report adds the messages of its failure and changes nothing else of the request. -/
theorem reportIn_snd (i : Identity) (violations : List Violation) (s : Session) :
    (e.reportIn i violations s).2
      = ⟨(e.report i violations s.plugins).2,
          { s.request with
            messages := s.request.messages
              ++ (outcomeOf (e.report i violations s.plugins).1).queued i.clientId }⟩ := by
  -- Both cases add the messages of the outcome; without a failure there are none.
  have hlookup : (Session.lookup (e.report i violations) s).1
      = (e.report i violations s.plugins).1 := rfl
  rw [reportIn, run_bind, hlookup]
  cases (e.report i violations s.plugins).1 with
  | none =>
    show (⟨(e.report i violations s.plugins).2, s.request⟩ : Session) = _
    simp [outcomeOf, Outcome.queued, Outcome.failure?]
  | some failure =>
    show (⟨_, s.request.addMessages i.clientId failure.messages⟩ : Session) = _
    rw [Request.addMessages_eq]
    rfl

/-- There is nothing to report without violations. -/
theorem report_nil (i : Identity) (p : Plugins) : e.report i [] p = (none, p) := rfl

/-- Otherwise the reviewer decides, and its message goes into the failure. -/
theorem report_cons (i : Identity) (first : Violation) (rest : List Violation) (p : Plugins) :
    (e.report i (first :: rest) p).1
      = if (review i (first :: rest) (.error (labelled first)) p).1.1 then
          some
            { clientId := i.clientId
              message := plainUnlessLabelled first
                (review i (first :: rest) (.error (labelled first)) p).1.2
              additional := additional e.env.settings rest
              violations := first :: rest }
        else none := rfl

/-- Validating a value is finding its violations and reporting them. -/
theorem validate_eq (s : Session) :
    ((e.validate c b value s).1.1, (e.validate c b value s).2)
      = e.reportIn c.identity (e.violations c b value s).1 (e.violations c b value s).2 := by
  rw [validate, run_bind]
  cases (e.violations c b value s).1 with
  | nil => rfl
  | cons first rest => rfl

/-! ### The outcome -/

/-- Without hooks the outcome is the report of all violations. -/
theorem outcome_validateHooked (h : e.hooks = []) (s : Session) :
    (e.validateHooked c b value s).1
      = outcomeOf (e.report c.identity (e.violations c b value s).1
          (e.violations c b value s).2.plugins).1 := by
  rw [← reportIn_fst, ← validate_eq, validateHooked, h]
  rfl

/-- Without hooks the request afterwards is the one of the report, but for the stage. -/
theorem request_validateHooked (h : e.hooks = []) (s : Session) :
    ∃ stage, (e.validateHooked c b value s).2.request
      = (e.reportIn c.identity (e.violations c b value s).1
          (e.violations c b value s).2).2.request.setStage c.clientId stage := by
  rw [← validate_eq, validateHooked, h]
  exact ⟨_, rfl⟩

end Engine

end FieldGuard
