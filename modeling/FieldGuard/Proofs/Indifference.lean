import FieldGuard.Proofs.Agreement
import FieldGuard.Proofs.History
import FieldGuard.Proofs.ModelDemands

/-!
# `FieldGuard.Proofs.Indifference`: engines that do the same for two type models

An engine reads its types in three ways: for the annotations of a property, for the objects that
paths lead to, and for the groups of a component. If other types answer all of that alike, the
engine with these types does the same, call by call.

* `Environment.Indifferent`: the two type models answer alike, on some pages;
* `Plugins.checksAlike_withTypes`, `Plugins.convertsAlike_withTypes`: so do checks and metadata;
* `Engine.Indifferent.agree_init`, `Engine.Indifferent.agree_submit`,
  `Engine.Indifferent.agree_drain`: so do calls;
* `Engine.Indifferent.agree_calls`: so does a run of them, in what it returns and in what it leaves.

Strategies, transformers and recorders of an application are given the environment and the request,
and may read the types themselves. `Strategy.Overlooks`, `Transformer.Overlooks` and `Engine.Overlooks` say that
they do not look at the difference; those of the library look at no types at all. Registries find
plug-ins by name, so for the plug-ins this is an invariant of the registries
(`Plugins.stable_overlook`).
-/

set_option autoImplicit false

namespace FieldGuard

/-! ### Environments with other types -/

/-- The environment with other types. Its constraint engine stays. -/
def Environment.withTypes (env : Environment) (m : TypeModel) : Environment :=
  { env with types := m }

/-- The engine with other types. -/
def Engine.withTypes (e : Engine) (m : TypeModel) : Engine :=
  { e with env := e.env.withTypes m }

/-- On some pages it makes no difference which of two type models there is: the same annotations
are found on properties, the same objects are reached, and the same groups are resolved. -/
structure Environment.Indifferent (env : Environment) (pages : Page → Prop) (m : TypeModel) :
    Prop where
  extract : ∀ page target,
    Extraction.extract (env.withTypes m) page target = Extraction.extract env page target
  targets : ∀ page d,
    ModelTargets.ofDemand (env.withTypes m) page d = ModelTargets.ofDemand env page d
  resolve : ∀ i d queues r, pages r.page →
    Groups.resolve (env.withTypes m) i d queues r = Groups.resolve env i d queues r

/-- The strategy does not look at the difference either. -/
def Strategy.Overlooks (env : Environment) (pages : Page → Prop) (m : TypeModel) (s : Strategy) :
    Prop :=
  ∀ check, s.check = .own check → ∀ r : Request, pages r.page →
    check (env.withTypes m) r = check env r

/-- The transformer does not look at the difference either. -/
def Transformer.Overlooks (env : Environment) (pages : Page → Prop) (m : TypeModel)
    (t : Transformer) : Prop :=
  ∀ convert, t.conversion = .own convert → ∀ r : Request, pages r.page →
    convert (env.withTypes m) r = convert env r

theorem Strategy.overlooks_of_standard {s : Strategy} (hs : s ∈ Strategy.standard)
    (env : Environment) (pages : Page → Prop) (m : TypeModel) : s.Overlooks env pages m :=
  fun check hcheck r _ => Strategy.alike_of_standard hs (env.withTypes m) env r r check hcheck

theorem Transformer.overlooks_of_standard {t : Transformer} (ht : t ∈ Transformer.standard)
    (env : Environment) (pages : Page → Prop) (m : TypeModel) : t.Overlooks env pages m :=
  fun convert hconvert r _ =>
    Transformer.alike_of_standard ht (env.withTypes m) env r r convert hconvert

/-- All strategies and transformers that can be found overlook the difference. -/
structure Plugins.Overlook (env : Environment) (pages : Page → Prop) (m : TypeModel) (p : Plugins) :
    Prop where
  strategies : p.strategies.Offers (Strategy.Overlooks env pages m)
  transformers : p.transformers.Offers (Transformer.Overlooks env pages m)

/-- Registries of standard strategies and transformers that have kept nothing yet. -/
theorem EngineParts.overlook_of_standard {parts : EngineParts}
    (hstrategies : parts.strategies = Strategy.catalog)
    (htransformers : parts.transformers = Transformer.catalog) (env : Environment)
    (pages : Page → Prop) (m : TypeModel) : parts.engine.plugins.Overlook env pages m where
  strategies := by
    refine Registry.offers_of_catalog rfl ?_
    show parts.strategies.Offers _
    rw [hstrategies]
    exact Strategy.offers_catalog fun _ hs => Strategy.overlooks_of_standard hs env pages m
  transformers := by
    refine Registry.offers_of_catalog rfl ?_
    show parts.transformers.Offers _
    rw [htransformers]
    exact Transformer.offers_catalog fun _ ht => Transformer.overlooks_of_standard ht env pages m

namespace Plugins

variable {env : Environment} {pages : Page → Prop} {m : TypeModel}

/-- Look-ups find such plug-ins only. -/
theorem stable_overlook : Stable (Overlook env pages m) where
  strategyFor key _ hp := ⟨(hp.strategies.resolve key key).2, hp.transformers⟩
  transformerFor s _ hp := ⟨hp.strategies, (hp.transformers.resolve s.name s).2⟩
  reviewerFor _ _ hp := ⟨hp.strategies, hp.transformers⟩

/-- Joins borrow the same entries. -/
theorem borrowed_withTypes (h : env.Indifferent pages m) (page : Page) :
    Extraction.borrowed env page = Extraction.borrowed (env.withTypes m) page := by
  funext target
  rw [Extraction.borrowed, Extraction.borrowed, Extraction.extractForJoin,
    Extraction.extractForJoin, h.extract]

/-- On the pages, checks do the same with the other types. -/
theorem checksAlike_withTypes (h : env.Indifferent pages m) {r : Request} (hr : pages r.page) :
    ChecksAlike (Overlook env pages m) env (env.withTypes m) r r where
  stable := stable_overlook
  borrowed := borrowed_withTypes h r.page
  strategies _ hp := hp.strategies.mono fun _ hs check hcheck => (hs check hcheck r hr).symm

/-- So does the conversion of entries to metadata. -/
theorem convertsAlike_withTypes (h : env.Indifferent pages m) {r : Request} (hr : pages r.page) :
    ConvertsAlike (Overlook env pages m) env (env.withTypes m) r r where
  stable := stable_overlook
  borrowed := borrowed_withTypes h r.page
  transformers _ hp :=
    hp.transformers.mono fun _ ht convert hconvert => (ht convert hconvert r hr).symm

end Plugins

/-! ### Calls -/

namespace Engine

variable {e : Engine} {pages : Page → Prop} {m : TypeModel}

/-- Recorders do not look at the difference between the types and others. They and the hooks do
not lead away from the pages. -/
structure Overlooks (e : Engine) (pages : Page → Prop) (m : TypeModel) : Prop where
  recorded : ∀ c value r, pages r.page →
    Recorder.recordAll e.recorders (e.env.withTypes m) c value r
      = Recorder.recordAll e.recorders e.env c value r
  record : ∀ c value r, pages r.page → pages (Recorder.recordAll e.recorders e.env c value r).page
  before : ∀ c value info r, pages r.page → pages (Hook.runBefore c value info e.hooks r).2.page
  after : ∀ c value info r, pages r.page → pages (Hook.runAfter c value info e.hooks r).page

/-- An engine with the standard extractor that makes nothing of the difference between its types
and others. -/
structure Indifferent (e : Engine) (pages : Page → Prop) (m : TypeModel) : Prop
    extends e.Overlooks pages m where
  extractor : e.extractor = .standard
  env : e.env.Indifferent pages m

/-- Hooks and recorders as they are unless an application adds its own make nothing of it. -/
theorem Unhooked.overlooks (h : e.Unhooked) (pages : Page → Prop) (m : TypeModel) :
    e.Overlooks pages m where
  recorded c value r _ := by
    rw [h.recorders]
    rfl
  record c value r hr := by
    obtain ⟨recorded, heq⟩ := recordAll_eq h.recorders c value r
    rw [heq]
    exact hr
  before c value info r hr := by
    rw [h.hooks]
    exact hr
  after c value info r hr := by
    rw [h.hooks]
    exact hr

/-- The registries and the request of a session on one of the pages. -/
abbrev On (e : Engine) (pages : Page → Prop) (m : TypeModel) : Session → Prop :=
  Session.Has (Plugins.Overlook e.env pages m) fun r => pages r.page

namespace Indifferent

theorem frame (h : e.Indifferent pages m) (c : Component) : e.Frame c fun r => pages r.page where
  setStage _ _ _ hr := hr
  addMessages _ _ _ hr := by
    rw [Request.addMessages_eq]
    exact hr
  resolve d queues r hr := by
    rw [Groups.page_resolve]
    exact hr
  record value r hr := h.record c value r hr
  before value info r hr := h.before c value info r hr
  after value info r hr := h.after c value info r hr

theorem extract_eq (h : e.Indifferent pages m) (r : Request) (c : Component) :
    (e.withTypes m).extract r c = e.extract r c := by
  show e.extractor.extract (e.env.withTypes m) r _ = e.extractor.extract e.env r _
  rw [h.extractor]
  exact h.env.extract r.page _

theorem bound?_eq (h : e.Indifferent pages m) (r : Request) (c : Component) :
    (e.withTypes m).bound? r c = e.bound? r c := by
  rw [bound?, bound?, h.extract_eq]

end Indifferent

section

variable {I : Plugins → Prop} {P : Request → Prop} {α : Type}

theorem agree_lookup {x y : StateM Plugins α} (h : Agree I x y) :
    Agree (Session.Has I P) (Session.lookup x) (Session.lookup y) := by
  intro s hs
  rw [Session.lookup, Session.lookup, h s.plugins hs.1]

theorem agree_run {f g : Request → α × Request} (h : ∀ r, P r → f r = g r) :
    Agree (Session.Has I P) (Session.run f) (Session.run g) := by
  intro s hs
  rw [Session.run, Session.run, h s.request hs.2]

/-- What follows may rely on what holds of the request that it is given. -/
theorem agree_current_bind {f g : Request → StateM Session α}
    (h : ∀ r, P r → Agree (Session.Has I P) (f r) (g r)) :
    Agree (Session.Has I P) (Session.current >>= f) (Session.current >>= g) :=
  fun s hs => h s.request hs.2 s hs

end

namespace Indifferent

variable {c : Component}

theorem agree_configure (h : e.Indifferent pages m) (b : Bound) :
    Agree (e.On pages m) (e.configure c b) ((e.withTypes m).configure c b) := by
  have hconstraints : Agree (e.On pages m) (e.constraintMetadata c b)
      ((e.withTypes m).constraintMetadata c b) :=
    (agree_run fun r hr => (h.env.resolve _ _ _ r hr).symm).bind
      (keeps_run ((h.frame c).resolve _ _)) fun _ =>
        agree_current_bind fun _ hr =>
          agree_lookup ((Plugins.convertsAlike_withTypes h.env hr).agree_mergeConstraints _ _ _ _)
  rw [configure, configure]
  refine agree_current_bind fun r hr => ?_
  refine (agree_lookup ((Plugins.convertsAlike_withTypes h.env hr).agree_metadataOf b.info)).bind
    (keeps_lookup (Plugins.stable_overlook.metadataOf _ _ _)) fun own => ?_
  exact hconstraints.bind (keeps_constraintMetadata Plugins.stable_overlook (h.frame c) b)
    fun _ => Agree.refl _

/-- Rendering does the same. -/
theorem agree_init (h : e.Indifferent pages m) (c : Component) :
    Agree (e.On pages m) (e.init c) ((e.withTypes m).init c) := by
  rw [init, init]
  refine (Agree.refl _).bind (keeps_change ((h.frame c).setStage _ _)) fun _ => ?_
  refine agree_current_bind fun r _ => ?_
  rw [h.extract_eq]
  cases e.extract r c with
  | error fault => exact Agree.refl _
  | ok info =>
    refine (Agree.refl _).bind (keeps_change ((h.frame c).setStage _ _)) fun _ => ?_
    cases Bound.of? info with
    | none => exact Agree.refl _
    | some b => exact h.agree_configure b

theorem agree_violations (h : e.Indifferent pages m) (b : Bound) (value : Value) :
    Agree (e.On pages m) (e.violations c b value) ((e.withTypes m).violations c b value) := by
  rw [violations, violations]
  refine agree_current_bind fun r hr => ?_
  have hchecks := Plugins.checksAlike_withTypes h.env hr
  refine (agree_lookup (hchecks.agree_strategyViolations b value _)).bind
    (keeps_lookup (Plugins.stable_overlook.strategyViolations _ _ _ _ _)) fun found => ?_
  exact (agree_run fun r hr => (h.env.resolve _ _ _ r hr).symm).bind
    (keeps_run ((h.frame c).resolve _ _)) fun _ => Agree.refl _

theorem agree_validate (h : e.Indifferent pages m) (b : Bound) (value : Value) :
    Agree (e.On pages m) (e.validate c b value) ((e.withTypes m).validate c b value) := by
  rw [validate, validate]
  refine (h.agree_violations b value).bind
    (keeps_violations Plugins.stable_overlook (h.frame c) b value) fun found => ?_
  cases found with
  | nil => exact Agree.refl _
  | cons first rest => exact Agree.refl _

theorem agree_validateHooked (h : e.Indifferent pages m) (b : Bound) (value : Value) :
    Agree (e.On pages m) (e.validateHooked c b value)
      ((e.withTypes m).validateHooked c b value) := by
  rw [validateHooked, validateHooked]
  refine (Agree.refl _).bind (keeps_run ((h.frame c).before _ _)) fun agreed => ?_
  cases agreed with
  | false =>
    simp only [Bool.false_eq_true, if_false]
    exact Agree.refl _
  | true =>
    simp only [if_true]
    exact (h.agree_validate b value).bind
      (keeps_validate Plugins.stable_overlook (h.frame c) b value) fun _ => Agree.refl _

/-- A submission does the same. -/
theorem agree_submit (h : e.Indifferent pages m) (c : Component) (text : String) :
    Agree (e.On pages m) (e.submit c text) ((e.withTypes m).submit c text) := by
  intro s hs
  cases heditable : c.editable with
  | false => rw [submit_of_not_editable heditable, submit_of_not_editable heditable]
  | true =>
    cases hconvert : c.convert text with
    | error fault => rw [submit_of_refused heditable hconvert, submit_of_refused heditable hconvert]
    | ok value =>
      -- What is validated is bound on the page that the recorders leave, which may be another one.
      have hrecorded : (e.withTypes m).recorded c value s.request = e.recorded c value s.request :=
        h.recorded c value _ hs.2
      rw [submit_of_converted heditable hconvert, submit_of_converted heditable hconvert, hrecorded,
        h.bound?_eq]
      cases e.bound? (e.recorded c value s.request) c with
      | none => rfl
      | some b =>
        exact h.agree_validateHooked b _ ⟨s.plugins, e.recorded c value s.request⟩
          ⟨hs.1, h.record c value _ hs.2⟩

/-- Draining does the same, for it reaches the same objects. -/
theorem agree_drain (h : e.Indifferent pages m) :
    Agree (e.On pages m) e.drain (e.withTypes m).drain := by
  intro s _
  -- The types say which objects are validated. How they are validated is up to the constraint
  -- engine, which is the same.
  have hwork : work (e.env.withTypes m) s.request.page
      (s.request.queue.demands s.request.page.view)
      = work e.env s.request.page (s.request.queue.demands s.request.page.view) := by
    unfold work
    simp only [h.env.targets]
  have hvalidate : ∀ items, (e.withTypes m).validateWork items = e.validateWork items := by
    intro items
    induction items with
    | nil => rfl
    | cons item rest ih =>
      obtain ⟨d, target⟩ := item
      rw [validateWork, validateWork, ih]
      rfl
  rw [drain_eq, drain_eq, hvalidate, withTypes, hwork]

end Indifferent

end Engine

/-! ### Runs -/

/-- What a call returns. -/
inductive Answer where
  | rendered (metadata : Metadata) (component : Component)
  | validated (outcome : Outcome)
  | drained (failures : List ModelFailure)

/-- A call with what it returns. -/
def Call.perform (e : Engine) : Call → StateM Session Answer
  | .init c => do
    let (metadata, component) ← e.init c
    pure (.rendered metadata component)
  | .submit c text => do
    let outcome ← e.submit c text
    pure (.validated outcome)
  | .drain => do
    let failures ← e.drain
    pure (.drained failures)

namespace Engine.Indifferent

variable {e : Engine} {pages : Page → Prop} {m : TypeModel}

theorem keeps_drain_on (e : Engine) (pages : Page → Prop) (m : TypeModel) :
    Keeps (e.On pages m) e.drain := by
  refine keeps_drain Plugins.stable_overlook e (fun clientId messages r hr => ?_) fun _ _ hr => hr
  rw [Request.addMessages_eq]
  exact hr

theorem keeps_perform (h : e.Indifferent pages m) (call : Call) :
    Keeps (e.On pages m) (call.perform e) := by
  cases call with
  | init c => exact (keeps_init Plugins.stable_overlook (h.frame c)).bind fun _ => Keeps.pure _
  | submit c text =>
    exact (keeps_submit Plugins.stable_overlook (h.frame c) text).bind fun _ => Keeps.pure _
  | drain => exact (keeps_drain_on e pages m).bind fun _ => Keeps.pure _

theorem agree_perform (h : e.Indifferent pages m) (call : Call) :
    Agree (e.On pages m) (call.perform e) (call.perform (e.withTypes m)) := by
  cases call with
  | init c =>
    exact (h.agree_init c).bind (keeps_init Plugins.stable_overlook (h.frame c))
      fun _ => Agree.refl _
  | submit c text =>
    exact (h.agree_submit c text).bind (keeps_submit Plugins.stable_overlook (h.frame c) text)
      fun _ => Agree.refl _
  | drain => exact h.agree_drain.bind (keeps_drain_on e pages m) fun _ => Agree.refl _

/-- Any calls do the same: each returns the same, and the session is the same afterwards. -/
theorem agree_calls (h : e.Indifferent pages m) (calls : List Call) :
    Agree (e.On pages m) (calls.mapM (Call.perform e))
      (calls.mapM (Call.perform (e.withTypes m))) :=
  Agree.mapM h.keeps_perform h.agree_perform calls

end Engine.Indifferent

end FieldGuard
