import FieldGuard.Engine.Drain
import FieldGuard.Engine.Render
import FieldGuard.Engine.Submit

/-!
# `FieldGuard.Proofs.Keeps`: what all steps of a computation keep

Look-ups and calls are computations over a state: the registries for a look-up, the
registries and the request for a call. `Keeps I` says that a computation leads from
states with the invariant `I` to such states, and `Settled I` that it has one answer in
all of them. Both go through sequential composition, so they are shown for the smallest
steps and hold for everything that is made of them.

* `Plugins.Stable`: an invariant of the registries that every look-up keeps;
* `Plugins.Stable.check`, `Plugins.Stable.metadataOf`: checks and metadata keep it;
* `Engine.Frame`: an invariant of the request that calls for a component keep;
* `Engine.keeps_init`, `Engine.keeps_submit`, `Engine.keeps_drain`: calls keep both.
-/

set_option autoImplicit false

namespace FieldGuard

section

variable {σ α β : Type} {I : σ → Prop}

/-- The computation keeps an invariant of its state. -/
def Keeps (I : σ → Prop) (x : StateM σ α) : Prop :=
  ∀ s, I s → I (x s).2

/-- The computation has one answer in all states with the invariant. -/
def Settled (I : σ → Prop) (x : StateM σ α) : Prop :=
  ∀ s t, I s → I t → (x s).1 = (x t).1

theorem run_bind (x : StateM σ α) (f : α → StateM σ β) (s : σ) :
    (x >>= f) s = f (x s).1 (x s).2 := rfl

theorem run_pure (a : α) (s : σ) : (pure a : StateM σ α) s = (a, s) := rfl

namespace Keeps

theorem pure (a : α) : Keeps I (Pure.pure a : StateM σ α) :=
  fun _ hs => hs

theorem bind {x : StateM σ α} {f : α → StateM σ β} (hx : Keeps I x) (hf : ∀ a, Keeps I (f a)) :
    Keeps I (x >>= f) :=
  fun s hs => hf _ _ (hx s hs)

theorem mapM {f : α → StateM σ β} (h : ∀ a, Keeps I (f a)) (items : List α) :
    Keeps I (items.mapM f) := by
  induction items with
  | nil => exact pure _
  | cons a rest ih =>
    rw [List.mapM_cons]
    exact (h a).bind fun _ => ih.bind fun _ => pure _

end Keeps

namespace Settled

theorem of_answer {x : StateM σ α} {a : α} (h : ∀ s, I s → (x s).1 = a) : Settled I x :=
  fun s t hs ht => (h s hs).trans (h t ht).symm

theorem pure (a : α) : Settled I (Pure.pure a : StateM σ α) :=
  fun _ _ _ _ => rfl

/-- The second computation starts from states with the invariant, with one answer of the
first. -/
theorem bind {x : StateM σ α} {f : α → StateM σ β} (hx : Settled I x) (hkeeps : Keeps I x)
    (hf : ∀ a, Settled I (f a)) : Settled I (x >>= f) := by
  intro s t hs ht
  rw [run_bind, run_bind, hx s t hs ht]
  exact hf _ _ _ (hkeeps s hs) (hkeeps t ht)

end Settled

end

/-! ### Look-ups -/

namespace Plugins

variable {I : Plugins → Prop} {α β : Type}

/-- An invariant that a look-up of any kind keeps. -/
structure Stable (I : Plugins → Prop) : Prop where
  strategyFor : ∀ key, Keeps I (strategyFor key)
  transformerFor : ∀ s, Keeps I (transformerFor s)
  reviewerFor : ∀ i, Keeps I (reviewerFor i)

/-- For what concerns the request alone, registries may be any. -/
theorem stable_true : Stable fun _ => True :=
  ⟨fun _ _ _ => trivial, fun _ _ _ => trivial, fun _ _ _ => trivial⟩

theorem keeps_attempt_bind {x : Attempt α} {f : α → Attempt β} (hx : Keeps I x.run)
    (hf : ∀ a, Keeps I (f a).run) : Keeps I (x >>= f).run := by
  show Keeps I (x.run >>= ExceptT.bindCont f)
  refine hx.bind fun result => ?_
  cases result with
  | ok a => exact hf a
  | error fault => exact Keeps.pure _

theorem keeps_attempt_lift {x : StateM Plugins α} (hx : Keeps I x) :
    Keeps I (liftM x : Attempt α).run :=
  hx.bind fun _ => Keeps.pure _

namespace Stable

theorem checkBorrowed (h : Stable I) {checkOne : Strategy → Entry → Value → Attempt (List Complaint)}
    (hone : ∀ s e v, Keeps I (checkOne s e v).run) (value : Value) (entries : List Entry) :
    Keeps I (checkBorrowed checkOne value entries).run := by
  induction entries with
  | nil => exact Keeps.pure _
  | cons e rest ih =>
    -- The rest of the entries is checked in the same way, whatever the first one has found.
    have hrest : ∀ found : List Complaint, Keeps I
        (do let others ← Plugins.checkBorrowed checkOne value rest
            Pure.pure (found ++ others) : Attempt (List Complaint)).run :=
      fun found => keeps_attempt_bind ih fun _ => Keeps.pure _
    rw [Plugins.checkBorrowed]
    refine keeps_attempt_bind (keeps_attempt_lift (h.strategyFor e.key)) fun found => ?_
    cases found with
    | none => exact hrest []
    | some s => exact keeps_attempt_bind (hone s e value) hrest

theorem checkWith (h : Stable I) {checkOne : Strategy → Entry → Value → Attempt (List Complaint)}
    (hone : ∀ s e v, Keeps I (checkOne s e v).run) (env : Environment) (r : Request) (s : Strategy)
    (e : Entry) (value : Value) : Keeps I (checkWith checkOne env r s e value).run := by
  unfold Plugins.checkWith
  cases s.check with
  | own check => exact Keeps.pure _
  | join => exact keeps_attempt_bind (Keeps.pure _) fun _ => h.checkBorrowed hone value _

/-- Checks keep what every look-up keeps. -/
theorem check (h : Stable I) (env : Environment) (r : Request) (s : Strategy) (e : Entry)
    (value : Value) : Keeps I (check env r s e value).run := by
  -- Borrowed entries borrow nothing, so there are two layers of checks and no more.
  have hlent : ∀ s e v, Keeps I (checkLent env r s e v).run :=
    fun s e v => h.checkWith (fun _ _ _ => Keeps.pure _) env r s e v
  exact h.checkWith hlent env r s e value

theorem mergeEntries (h : Stable I)
    {transformOne : Strategy → Entry → StateM Plugins (Option Metadata)}
    (hone : ∀ s e, Keeps I (transformOne s e)) (metadata : Metadata) (entries : List Entry) :
    Keeps I (mergeEntries transformOne metadata entries) := by
  induction entries generalizing metadata with
  | nil => exact Keeps.pure _
  | cons e rest ih =>
    rw [Plugins.mergeEntries]
    refine (h.strategyFor e.key).bind fun found => ?_
    cases found with
    | none => exact ih metadata
    | some s => exact (hone s e).bind fun _ => ih _

theorem convertWith (h : Stable I)
    {transformOne : Strategy → Entry → StateM Plugins (Option Metadata)}
    (hone : ∀ s e, Keeps I (transformOne s e)) (env : Environment) (r : Request) (t : Transformer)
    (e : Entry) : Keeps I (convertWith transformOne env r t e).run := by
  unfold Plugins.convertWith
  cases t.conversion with
  | own convert => exact Keeps.pure _
  | join =>
    exact keeps_attempt_bind (Keeps.pure _) fun _ => keeps_attempt_lift (h.mergeEntries hone _ _)

theorem transformWith (h : Stable I)
    {transformOne : Strategy → Entry → StateM Plugins (Option Metadata)}
    (hone : ∀ s e, Keeps I (transformOne s e)) (env : Environment) (r : Request) (s : Strategy)
    (e : Entry) : Keeps I (transformWith transformOne env r s e) := by
  rw [Plugins.transformWith]
  refine (h.transformerFor s).bind fun found => ?_
  cases found with
  | none => exact Keeps.pure _
  | some t =>
    refine (h.convertWith hone env r t e).bind fun result => ?_
    cases result with
    | ok metadata => exact Keeps.pure _
    | error fault => exact Keeps.pure _

theorem transform (h : Stable I) (env : Environment) (r : Request) (s : Strategy) (e : Entry) :
    Keeps I (transform env r s e) := by
  have hlent : ∀ s e, Keeps I (transformLent env r s e) :=
    fun s e => h.transformWith (fun _ _ => Keeps.pure _) env r s e
  exact h.transformWith hlent env r s e

/-- The metadata of a property keeps what every look-up keeps. -/
theorem metadataOf (h : Stable I) (env : Environment) (r : Request) (info : PropertyInfo) :
    Keeps I (metadataOf env r info) :=
  h.mergeEntries (h.transform env r) _ _

theorem strategyViolations (h : Stable I) (env : Environment) (r : Request) (b : Engine.Bound)
    (value : Value) (entries : List Entry) :
    Keeps I (Engine.strategyViolations env r b value entries) := by
  induction entries with
  | nil => exact Keeps.pure _
  | cons e rest ih =>
    rw [Engine.strategyViolations]
    refine (h.strategyFor e.key).bind fun found => ?_
    cases found with
    | none => exact ih.bind fun _ => Keeps.pure _
    | some s =>
      refine (h.check env r s e value).bind fun result => ?_
      cases result with
      | ok complaints => exact ih.bind fun _ => Keeps.pure _
      | error fault => exact ih.bind fun _ => Keeps.pure _

theorem mergeConstraints (h : Stable I) (env : Environment) (r : Request) (d : Details)
    (binding : Option String) (metadata : Metadata) (constraints : List Constraint) :
    Keeps I (Engine.mergeConstraints env r d binding metadata constraints) := by
  induction constraints generalizing metadata with
  | nil => exact Keeps.pure _
  | cons c rest ih => exact (h.transform env r _ _).bind fun _ => ih _

theorem review (h : Stable I) (i : Identity) (violations : List Violation) (m : Message) :
    Keeps I (Engine.review i violations m) := by
  rw [Engine.review]
  refine (h.reviewerFor i).bind fun found => ?_
  cases found with
  | none => exact Keeps.pure _
  | some reviewer => exact Keeps.pure _

theorem report (h : Stable I) (e : Engine) (i : Identity) (violations : List Violation) :
    Keeps I (e.report i violations) := by
  cases violations with
  | nil => exact Keeps.pure _
  | cons first rest => exact (h.review i _ _).bind fun _ => Keeps.pure _

end Stable

end Plugins

/-! ### Calls -/

/-- An invariant of the registries beside one of the request. -/
def Session.Has (I : Plugins → Prop) (P : Request → Prop) (s : Session) : Prop :=
  I s.plugins ∧ P s.request

/-- An invariant of requests that calls for a component keep: it is about neither stages
nor messages, and the groups of the component, the recorders and the hooks keep it. -/
structure Engine.Frame (e : Engine) (c : Component) (P : Request → Prop) : Prop where
  setStage : ∀ clientId stage r, P r → P (r.setStage clientId stage)
  addMessages : ∀ clientId messages r, P r → P (r.addMessages clientId messages)
  resolve : ∀ d queues r, P r → P (Groups.resolve e.env c.identity d queues r).2
  record : ∀ value r, P r → P (Recorder.recordAll e.recorders e.env c value r)
  before : ∀ value info r, P r → P (Hook.runBefore c value info e.hooks r).2
  after : ∀ value info r, P r → P (Hook.runAfter c value info e.hooks r)

/-- What holds of every request is kept. -/
theorem Engine.frame_true (e : Engine) (c : Component) : e.Frame c fun _ => True :=
  ⟨fun _ _ _ h => h, fun _ _ _ h => h, fun _ _ _ h => h, fun _ _ h => h, fun _ _ _ h => h,
    fun _ _ _ h => h⟩

namespace Engine

variable {I : Plugins → Prop} {P : Request → Prop} {e : Engine} {c : Component}

theorem keeps_lookup {α : Type} {find : StateM Plugins α} (h : Keeps I find) :
    Keeps (Session.Has I P) (Session.lookup find) :=
  fun s hs => ⟨h s.plugins hs.1, hs.2⟩

theorem keeps_change {f : Request → Request} (h : ∀ r, P r → P (f r)) :
    Keeps (Session.Has I P) (Session.change f) :=
  fun s hs => ⟨hs.1, h s.request hs.2⟩

theorem keeps_run {α : Type} {f : Request → α × Request} (h : ∀ r, P r → P (f r).2) :
    Keeps (Session.Has I P) (Session.run f) :=
  fun s hs => ⟨hs.1, h s.request hs.2⟩

theorem keeps_current : Keeps (Session.Has I P) Session.current :=
  fun _ hs => hs

theorem keeps_constraintMetadata (h : Plugins.Stable I) (hP : e.Frame c P) (b : Bound) :
    Keeps (Session.Has I P) (e.constraintMetadata c b) :=
  (keeps_run (hP.resolve _ _)).bind fun _ => keeps_current.bind fun _ =>
    keeps_lookup (h.mergeConstraints _ _ _ _ _ _)

theorem keeps_configure (h : Plugins.Stable I) (hP : e.Frame c P) (b : Bound) :
    Keeps (Session.Has I P) (e.configure c b) :=
  keeps_current.bind fun _ => (keeps_lookup (h.metadataOf _ _ _)).bind fun _ =>
    (keeps_constraintMetadata h hP b).bind fun _ =>
      (keeps_change (hP.setStage _ _)).bind fun _ => Keeps.pure _

/-- Configuring a component keeps what look-ups and the frame of the component keep. -/
theorem keeps_init (h : Plugins.Stable I) (hP : e.Frame c P) :
    Keeps (Session.Has I P) (e.init c) := by
  rw [init]
  refine (keeps_change (hP.setStage _ _)).bind fun _ => keeps_current.bind fun r => ?_
  cases e.extract r c with
  | error fault => exact Keeps.pure _
  | ok info =>
    refine (keeps_change (hP.setStage _ _)).bind fun _ => ?_
    cases Bound.of? info with
    | none => exact Keeps.pure _
    | some b => exact keeps_configure h hP b

theorem keeps_reportIn (h : Plugins.Stable I) (e : Engine)
    (hmessages : ∀ clientId messages r, P r → P (r.addMessages clientId messages))
    (i : Identity) (violations : List Violation) :
    Keeps (Session.Has I P) (e.reportIn i violations) := by
  rw [reportIn]
  refine (keeps_lookup (h.report e i violations)).bind fun found => ?_
  cases found with
  | none => exact Keeps.pure _
  | some failure => exact (keeps_change (hmessages _ _)).bind fun _ => Keeps.pure _

theorem keeps_violations (h : Plugins.Stable I) (hP : e.Frame c P) (b : Bound) (value : Value) :
    Keeps (Session.Has I P) (e.violations c b value) :=
  keeps_current.bind fun _ => (keeps_lookup (h.strategyViolations _ _ _ _ _)).bind fun _ =>
    (keeps_run (hP.resolve _ _)).bind fun _ => (keeps_change (hP.setStage _ _)).bind fun _ =>
      (keeps_change (hP.setStage _ _)).bind fun _ => Keeps.pure _

theorem keeps_validate (h : Plugins.Stable I) (hP : e.Frame c P) (b : Bound) (value : Value) :
    Keeps (Session.Has I P) (e.validate c b value) := by
  rw [validate]
  refine (keeps_violations h hP b value).bind fun found => ?_
  cases found with
  | nil => exact Keeps.pure _
  | cons first rest => exact (keeps_reportIn h e hP.addMessages _ _).bind fun _ => Keeps.pure _

theorem keeps_validateHooked (h : Plugins.Stable I) (hP : e.Frame c P) (b : Bound)
    (value : Value) : Keeps (Session.Has I P) (e.validateHooked c b value) := by
  -- The hooks run after the validation also if there was none.
  have hafter : ∀ result : Option Failure × PropertyInfo,
      Keeps (Session.Has I P) (do
        Session.change (Hook.runAfter c value result.2 e.hooks)
        Session.setStage c.clientId (if result.1.isSome then .failed else .valid)
        pure (outcomeOf result.1)) :=
    fun _ => (keeps_change (hP.after _ _)).bind fun _ =>
      (keeps_change (hP.setStage _ _)).bind fun _ => Keeps.pure _
  rw [validateHooked]
  refine (keeps_run (hP.before _ _)).bind fun agreed => ?_
  cases agreed with
  | false => exact hafter (none, b.info)
  | true => exact (keeps_validate h hP b value).bind hafter

/-- Validating a submitted text keeps what look-ups and the frame of the component keep. -/
theorem keeps_submit (h : Plugins.Stable I) (hP : e.Frame c P) (submitted : String) :
    Keeps (Session.Has I P) (e.submit c submitted) := by
  rw [submit]
  refine (keeps_change (hP.setStage _ _)).bind fun _ => ?_
  cases c.editable with
  | false => exact Keeps.pure _
  | true =>
    cases c.convert submitted with
    | error fault =>
      exact (keeps_change (hP.addMessages _ _)).bind fun _ =>
        (keeps_change (hP.setStage _ _)).bind fun _ => Keeps.pure _
    | ok value =>
      refine (keeps_change (hP.setStage _ _)).bind fun _ =>
        (keeps_change (hP.record _)).bind fun _ => keeps_current.bind fun r => ?_
      cases e.bound? r c with
      | none => exact Keeps.pure _
      | some b => exact keeps_validateHooked h hP b _

theorem keeps_validateTargets (h : Plugins.Stable I) (e : Engine)
    (hmessages : ∀ clientId messages r, P r → P (r.addMessages clientId messages))
    (d : ModelDemand) (targets : List Bean) :
    Keeps (Session.Has I P) (e.validateTargets d targets) := by
  induction targets with
  | nil => exact Keeps.pure _
  | cons target rest ih =>
    have hone : Keeps (Session.Has I P) (e.validateTarget d target) :=
      (keeps_reportIn h e hmessages _ _).bind fun _ => Keeps.pure _
    exact hone.bind fun _ => ih.bind fun _ => Keeps.pure _

/-- Validating whole objects keeps what look-ups keep, and what is about neither the
messages nor the queue. -/
theorem keeps_drain (h : Plugins.Stable I) (e : Engine)
    (hmessages : ∀ clientId messages r, P r → P (r.addMessages clientId messages))
    (hqueue : ∀ r view, P r → P { r with queue := r.queue.clear view }) :
    Keeps (Session.Has I P) e.drain := by
  have hdemands : ∀ ds : List ModelDemand, Keeps (Session.Has I P) (e.validateDemands ds) := by
    intro ds
    induction ds with
    | nil => exact Keeps.pure _
    | cons d rest ih =>
      rw [validateDemands]
      refine keeps_current.bind fun r => ?_
      cases d.groups.isEmpty with
      | true => exact ih.bind fun _ => Keeps.pure _
      | false =>
        exact (keeps_validateTargets h e hmessages d _).bind fun _ => ih.bind fun _ => Keeps.pure _
  exact (keeps_run fun r hr => hqueue r r.page.view hr).bind fun _ => hdemands _

end Engine

end FieldGuard
