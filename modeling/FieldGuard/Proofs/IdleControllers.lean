import FieldGuard.Proofs.Indifference
import FieldGuard.Proofs.Pruning

/-!
# `FieldGuard.Proofs.IdleControllers`: annotations that do not apply have no influence

Controllers count for a request if they are for its view and permitted by one of their conditions,
and not at all where the settings ask for group sequences. Group sequences of types count only
there. What does not count may as well be left out of the types: no call returns anything else, and
no group, queued model validation or message is different afterwards.

* `Environment.IdleController`, `Environment.IdleOnType`: the annotations that do not count;
* `Environment.WithoutIdle.scan_eq`, `Environment.WithoutIdle.additions_eq`: without them, the same
  controllers are permitted and the same groups are switched;
* `Environment.WithoutIdle.indifferent`: nothing that is read from the types shows the difference;
* `EngineParts.engine_withTypes`: nor does the constraint engine that is made of them;
* `idle_annotations_unseen`: so any calls do the same.
-/

set_option autoImplicit false

namespace FieldGuard

/-! ### Idle annotations -/

/-- On none of the pages the controller is for the view and permitted. -/
def GroupController.Idle (env : Environment) (pages : Page → Prop) (c : GroupController) : Prop :=
  ∀ page, pages page → c.matchesView page.view = true → Groups.isPermitted env page c = false

namespace Environment

/-- A controller that is idle, or any one where the settings ask for group sequences. -/
def IdleController (env : Environment) (pages : Page → Prop) (a : Annotation) : Prop :=
  ∃ c, a = .controller c ∧ (env.settings.usesGroupSequences = true ∨ c.Idle env pages)

/-- Such a controller, or a group sequence where the settings do not ask for any. -/
def IdleOnType (env : Environment) (pages : Page → Prop) (a : Annotation) : Prop :=
  env.IdleController pages a ∨
    ∃ groups, a = .groupSequence groups ∧ env.settings.usesGroupSequences = false

variable {env : Environment} {pages : Page → Prop} {a : Annotation}

theorem IdleController.isController (h : env.IdleController pages a) : a.isController = true := by
  obtain ⟨c, rfl, -⟩ := h
  rfl

theorem IdleController.asConstraint? (h : env.IdleController pages a) : a.asConstraint? = none := by
  obtain ⟨c, rfl, -⟩ := h
  rfl

theorem IdleController.asGroupSequence? (h : env.IdleController pages a) :
    a.asGroupSequence? = none := by
  obtain ⟨c, rfl, -⟩ := h
  rfl

/-- Where controllers count, it is not permitted on any of the pages. -/
theorem IdleController.idle (h : env.IdleController pages a)
    (hcontrollers : env.settings.usesGroupSequences = false) {c : GroupController}
    (hc : a.asController? = some c) : c.Idle env pages := by
  obtain ⟨c', rfl, hidle⟩ := h
  cases hc
  rcases hidle with hsequences | hidle
  · rw [hcontrollers] at hsequences
    cases hsequences
  · exact hidle

theorem IdleOnType.asConstraint? (h : env.IdleOnType pages a) : a.asConstraint? = none := by
  obtain h | ⟨groups, rfl, -⟩ := h
  · exact h.asConstraint?
  · rfl

theorem IdleOnType.idle (h : env.IdleOnType pages a)
    (hcontrollers : env.settings.usesGroupSequences = false) {c : GroupController}
    (hc : a.asController? = some c) : c.Idle env pages := by
  obtain h | ⟨groups, rfl, -⟩ := h
  · exact h.idle hcontrollers hc
  · cases hc

theorem IdleOnType.asGroupSequence? (h : env.IdleOnType pages a)
    (hsequences : env.settings.usesGroupSequences = true) : a.asGroupSequence? = none := by
  obtain h | ⟨groups, -, hcontrollers⟩ := h
  · exact h.asGroupSequence?
  · rw [hsequences] at hcontrollers
    cases hcontrollers

end Environment

/-! ### Environments -/

section

variable {env : Environment} {pages : Page → Prop} {m : TypeModel}

/-- The types of the environment without some idle annotations. -/
abbrev Environment.WithoutIdle (env : Environment) (pages : Page → Prop) (m : TypeModel) : Prop :=
  env.types.Pruned (env.IdleOnType pages) (env.IdleController pages) m

namespace Environment.WithoutIdle

/-- Where controllers count, the same ones are permitted at all places. -/
theorem scan_eq (h : env.WithoutIdle pages m)
    (hcontrollers : env.settings.usesGroupSequences = false) {page : Page} (hpage : pages page)
    (d : Details) : Groups.scan (env.withTypes m) page d = Groups.scan env page d := by
  have hpermitted : ∀ l : Groups.Location,
      (l.controllers m page.view).filter (Groups.isPermitted env page)
        = (l.controllers env.types page.view).filter (Groups.isPermitted env page) :=
    fun l => TypeModel.Pruned.controllers_eq h
      (fun _ ha _ hc hview => ha.idle hcontrollers hc page hpage hview)
      (fun _ ha _ hc hview => ha.idle hcontrollers hc page hpage hview) l
  show (Groups.places env page d).flatMap (fun l =>
    ((l.controllers m page.view).filter (Groups.isPermitted env page)).map fun c => (l, c)) = _
  simp only [hpermitted]
  rfl

/-- The same groups are switched. -/
theorem additions_eq (h : env.WithoutIdle pages m) {page : Page} (hpage : pages page)
    (d : Details) : Groups.additions (env.withTypes m) page d = Groups.additions env page d := by
  have hsettings : (env.withTypes m).settings = env.settings := rfl
  rw [Groups.additions, Groups.additions, hsettings]
  -- Either sequences count or controllers do, and those that are idle do not in either case.
  cases hmode : env.settings.usesGroupSequences with
  | true =>
    have hsequence : Groups.sequence? m = Groups.sequence? env.types :=
      funext (TypeModel.Pruned.sequence?_eq h fun _ ha => ha.asGroupSequence? hmode)
    simp only [if_true]
    rw [← hsequence]
    rfl
  | false =>
    rw [h.scan_eq hmode hpage]
    rfl

/-- The same model validations are queued. -/
theorem queueAfter_eq (h : env.WithoutIdle pages m) (i : Identity) (d : Details) (queues : Bool)
    {r : Request} (hr : pages r.page) :
    Groups.queueAfter (env.withTypes m) i d queues r = Groups.queueAfter env i d queues r := by
  have hsettings : (env.withTypes m).settings = env.settings := rfl
  rw [Groups.queueAfter, Groups.queueAfter, hsettings]
  cases hmode : env.settings.usesGroupSequences with
  | true => simp
  | false =>
    rw [h.scan_eq hmode hr]
    rfl

/-- Nothing that is read from the types shows whether the idle annotations are there. -/
theorem indifferent (h : env.WithoutIdle pages m) : env.Indifferent pages m where
  extract page target := by
    have hlocate : Extraction.locate (env.withTypes m) page target
        = Extraction.locate env page target := by
      cases target <;> rfl
    have howner : Extraction.ofOwner m = Extraction.ofOwner env.types := by
      funext d binding owner
      exact TypeModel.Pruned.ofOwner_eq h (fun _ ha => ha.isController) d binding owner
    rw [Extraction.extract, Extraction.extract, hlocate, ← howner]
    rfl
  targets page d := by
    have hfollow : ModelTargets.follow m = ModelTargets.follow env.types := by
      funext bean path
      exact TypeModel.Pruned.follow_eq h bean path
    have hresolve : ModelTargets.resolve? (env.withTypes m) page d.source
        = ModelTargets.resolve? env page d.source := by
      funext target
      rw [ModelTargets.resolve?, ModelTargets.resolve?, ← hfollow]
      rfl
    rw [ModelTargets.ofDemand, ModelTargets.ofDemand, hresolve]
  resolve i d queues r hr := by
    rw [Groups.resolve_eq, Groups.resolve_eq, Groups.requestAfter, Groups.requestAfter,
      h.additions_eq hr, h.queueAfter_eq i d queues hr]

end Environment.WithoutIdle

end

/-! ### Engines -/

/-- An engine that is made of the types without some idle annotations is the same engine with other
types. Its constraint engine, which may have been made of the types, is the same. -/
theorem EngineParts.engine_withTypes {parts : EngineParts} {pages : Page → Prop} {m : TypeModel}
    (h : parts.engine.env.WithoutIdle pages m) :
    { parts with types := m }.engine = parts.engine.withTypes m := by
  have hconstraints : ConstraintEngine.ofTypes m = .ofTypes parts.types :=
    TypeModel.Pruned.ofTypes_eq h (fun _ ha => ha.asConstraint?) fun _ ha => ha.asConstraint?
  show _ = ({ parts.engine with env := { parts.engine.env with types := m } } : Engine)
  unfold EngineParts.engine
  simp only [hconstraints]
  rfl

/-- Annotations that do not apply have no influence. Take an engine with the standard extractor
whose recorders and hooks do not lead away from some pages. Leave any of these annotations out of
its types: controllers on types and properties that on these pages are for other views or not
permitted; where the settings ask for group sequences, any controllers; and where they do not, group
sequences of types. Then any calls for a request on one of the pages return the same, and they leave
the same request, with its groups, messages, model validations and stages, and the same registries.
Strategies, transformers and recorders of an application must not look at the difference
themselves. -/
theorem idle_annotations_unseen {parts : EngineParts} (hextractor : parts.extractor = .standard)
    {pages : Page → Prop} {m : TypeModel}
    (hidle : parts.types.Pruned (parts.engine.env.IdleOnType pages)
      (parts.engine.env.IdleController pages) m)
    (hoverlooks : parts.engine.Overlooks pages m) {s : Session}
    (hplugins : s.plugins.Overlook parts.engine.env pages m) (hpage : pages s.request.page)
    (calls : List Call) :
    calls.mapM (Call.perform { parts with types := m }.engine) s
      = calls.mapM (Call.perform parts.engine) s := by
  have hindifferent : parts.engine.Indifferent pages m :=
    { hoverlooks with
      extractor := hextractor
      env := Environment.WithoutIdle.indifferent hidle }
  rw [EngineParts.engine_withTypes hidle]
  exact (hindifferent.agree_calls calls s ⟨hplugins, hpage⟩).symm

/-! ### A customer with annotations that do not apply -/

/-- A customer needs a name. Other annotations stand on the type and on the name. -/
def customerParts (onType onName : List Annotation) : EngineParts where
  types := .ofTypes
    [{ name := "Customer", annotations := onType, properties :=
        [{ name := "name", hasField := true
           fieldAnnotations := .constraint { rule := .notNull } :: onName }] }]

/-- A page with one customer. -/
def customerPage : Request :=
  .new "/edit.xhtml" (Dict.ofList [("customer", .object (Record.ofType "Customer"))])

/-- The field for the name. -/
def customerField : Component where
  clientId := "form:name"
  valueBinding := some "#\x7bcustomer.name\x7d"

/-- For another view, a customer is validated as a whole in groups of its own. -/
def otherViewController : GroupController where
  viewIds := ["/other.xhtml"]
  useGroups := ["Other"]
  modelValidation := { isActive := true }

/-- Drafts need no name, but this is never one. -/
def draftController : GroupController where
  useGroups := ["Draft"]
  conditions := ["#\x7bfalse\x7d"]

/-- The controllers do not count for the page, and no group sequences are asked for. Without them
and the sequence the field is rendered, submitted and drained in the same way. -/
theorem idle_annotations_unseen_customer :
    let parts := customerParts [.controller otherViewController, .groupSequence ["Draft"]]
      [.controller draftController]
    let plain := customerParts [] []
    let s := Session.start parts.engine customerPage
    let calls := [Call.init customerField, .submit customerField "", .drain]
    calls.mapM (Call.perform plain.engine) s = calls.mapM (Call.perform parts.engine) s ∧
    (parts.engine.submit customerField "" s).1.isValid = false ∧
    (parts.engine.submit customerField "" s).2.request.groups "form:name" = ["Default"] := by
  intro parts plain s calls
  let pages : Page → Prop := fun page => page = customerPage.page
  have hother : parts.engine.env.IdleController pages (.controller otherViewController) := by
    refine ⟨otherViewController, rfl, .inr ?_⟩
    rintro page rfl hview
    exact absurd hview (by decide)
  have hdraft : parts.engine.env.IdleController pages (.controller draftController) := by
    refine ⟨draftController, rfl, .inr ?_⟩
    rintro page rfl -
    decide +kernel
  have hpruned : parts.types.Pruned (parts.engine.env.IdleOnType pages)
      (parts.engine.env.IdleController pages) plain.types :=
    TypeModel.Pruned.ofTypes <| .cons
      { name := rfl, kind := rfl, superclass := rfl, interfaces := rfl
        annotations := .drop (.inl hother) (.drop (.inr ⟨_, rfl, rfl⟩) .nil)
        properties := .cons
          { name := rfl, hasField := rfl, accessor := rfl
            fieldAnnotations := .keep _ (.drop hdraft .nil)
            accessorAnnotations := .nil } .nil } .nil
  have hoverlooks : parts.engine.Overlooks pages plain.types :=
    Engine.Unhooked.overlooks ⟨rfl, rfl⟩ pages plain.types
  have hplugins : s.plugins.Overlook parts.engine.env pages plain.types :=
    EngineParts.overlook_of_standard rfl rfl _ _ _
  exact ⟨idle_annotations_unseen rfl hpruned hoverlooks hplugins rfl calls, by decide +kernel,
    by decide +kernel⟩

end FieldGuard
