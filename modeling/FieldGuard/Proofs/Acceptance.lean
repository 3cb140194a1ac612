import FieldGuard.Proofs.History
import FieldGuard.Proofs.Objects

/-!
# `FieldGuard.Proofs.Acceptance`: which values a submission accepts

A value is accepted when the strategies of its annotations have no complaint and it
satisfies the constraints of its property that belong to one of the groups of the
component. The constraint engine stops at the first group with violations; that changes
which violations are reported, but not whether there are any.

* `strategyViolations_eq_nil_iff`: no strategy that is found and works has a complaint;
* `constrained_eq_nil_iff`: no active constraint is broken, in whichever group;
* `report_eq_none_iff`: with the standard reviewer all violations are reported;
* `valid_submit_iff`: so a submission is valid just when its value is accepted;
* `renders_submit`, `renders_quiet`: rendering selects the same constraints, after the
  submission and before it;
* `submit_accepts_iff`: both, for every engine with the standard parts;
* `submit_demands_more`: a recorder that switches a group on in between.

Rendering and submissions resolve the groups of a component in the same way: each switches
on and off the same groups in the ledger, and doing so twice changes nothing. So it does not
matter which of them comes first. Recorders run between the two and may change the request;
`RecordsQuietly` says that they leave the page and the groups of the component alone, as the
standard one does.
-/

set_option autoImplicit false

namespace FieldGuard

/-! ### Properties that a component is bound to -/

namespace Extraction

/-- The type of the object and the name of the property that a component is bound to. -/
def property? (env : Environment) (page : Page) (c : Component) : Option (String × String) :=
  match locate env page (.component c) with
  | .ok (d, _) => d.base.map fun owner => (owner.typeName, d.property)
  | .error _ => none

/-- A component is bound to a readable property of an object of a known type. -/
structure Resolves (env : Environment) (page : Page) (c : Component) (typeName property : String) :
    Prop where
  found : property? env page c = some (typeName, property)
  known : env.types.contains typeName = true
  readable : (env.types.readableAccessor? typeName property).isSome = true

end Extraction

namespace Engine

/-- The standard extractor finds what is known about such a property. -/
theorem bound?_of_resolves {e : Engine} (hextractor : e.extractor = .standard) {r : Request}
    {c : Component} {typeName property : String}
    (h : Extraction.Resolves e.env r.page c typeName property) :
    ∃ b, e.bound? r c = some b := by
  have hfound := h.found
  unfold Extraction.property? at hfound
  split at hfound
  · next d binding hlocate =>
    obtain ⟨owner, hbase, hpair⟩ := Option.map_eq_some_iff.1 hfound
    obtain ⟨rfl, rfl⟩ := Prod.mk.inj hpair
    -- The extraction finds an owner, a known type and an accessor, so it gets to the entries.
    let info := PropertyInfo.ofEntries d
      (Extraction.entries e.env.types owner.typeName d.property binding)
    have hextract : e.extract r c = .ok info := by
      rw [extract, hextractor]
      exact Extraction.extract_eq_ok_iff.2
        ⟨d, binding, hlocate, .inr ⟨owner, hbase, h.known, h.readable, rfl⟩⟩
    refine ⟨⟨info, d, owner⟩, ?_⟩
    rw [bound?, hextract]
    simp [Bound.of?, info, PropertyInfo.details?, PropertyInfo.detailsAt?, PropertyInfo.ofEntries,
      hbase]
  · simp at hfound

/-! ### Strategies -/

/-- The violations that the strategy of one entry finds. -/
def entryViolations (env : Environment) (r : Request) (b : Bound) (value : Value) (e : Entry) :
    StateM Plugins (List Violation) := do
  match ← Plugins.strategyFor e.key with
  | none => pure []
  | some s =>
    match ← (Plugins.check env r s e value).run with
    | .ok complaints => pure (complaints.map (violationOf b e value))
    | .error _ => pure []

theorem strategyViolations_cons (env : Environment) (r : Request) (b : Bound) (value : Value)
    (e : Entry) (rest : List Entry) (p : Plugins) :
    strategyViolations env r b value (e :: rest) p
      = ((entryViolations env r b value e p).1
            ++ (strategyViolations env r b value rest (entryViolations env r b value e p).2).1,
          (strategyViolations env r b value rest (entryViolations env r b value e p).2).2) := by
  rw [strategyViolations, entryViolations, run_bind, run_bind]
  cases (Plugins.strategyFor e.key p).1 with
  | none => rfl
  | some s =>
    simp only [run_bind]
    cases ((Plugins.check env r s e value).run (Plugins.strategyFor e.key p).2).1 with
    | ok complaints => rfl
    | error fault => rfl

/-- A strategy that is found for the entry and does not fail has no complaint. -/
def PassesEntry (env : Environment) (r : Request) (value : Value) (e : Entry) (p : Plugins) :
    Prop :=
  ∀ s complaints, (Plugins.strategyFor e.key p).1 = some s →
    ((Plugins.check env r s e value).run (Plugins.strategyFor e.key p).2).1 = .ok complaints →
    complaints = []

theorem entryViolations_eq_nil_iff {env : Environment} {r : Request} {b : Bound} {value : Value}
    {e : Entry} {p : Plugins} :
    (entryViolations env r b value e p).1 = [] ↔ PassesEntry env r value e p := by
  unfold PassesEntry
  rw [entryViolations, run_bind]
  cases (Plugins.strategyFor e.key p).1 with
  | none => simp [run_pure]
  | some s =>
    simp only [run_bind]
    cases hcheck : ((Plugins.check env r s e value).run (Plugins.strategyFor e.key p).2).1 with
    | ok complaints =>
      show complaints.map (violationOf b e value) = [] ↔ _
      rw [List.map_eq_nil_iff]
      constructor
      · intro hnone s' found hs hfound
        cases hs
        rw [hcheck] at hfound
        cases hfound
        exact hnone
      · exact fun hall => hall s complaints rfl hcheck
    | error fault =>
      refine ⟨fun _ s' found hs hfound => ?_, fun _ => rfl⟩
      cases hs
      rw [hcheck] at hfound
      cases hfound

/-- The strategies find nothing just when every entry passes, each with what the look-ups
for the entries before it have left. -/
theorem strategyViolations_eq_nil_iff {env : Environment} {r : Request} {b : Bound} {value : Value}
    {entries : List Entry} {p : Plugins} :
    (strategyViolations env r b value entries p).1 = [] ↔
      ∀ before e after, entries = before ++ e :: after →
        PassesEntry env r value e (strategyViolations env r b value before p).2 := by
  -- Over any registries: those of the rest are what the look-ups for the first entry leave.
  induction entries generalizing p with
  | nil => simp [strategyViolations, run_pure]
  | cons e rest ih =>
    rw [strategyViolations_cons]
    simp only [List.append_eq_nil_iff, entryViolations_eq_nil_iff, ih]
    constructor
    · rintro ⟨hhead, htail⟩ before e' after hsplit
      cases before with
      | nil =>
        obtain ⟨rfl, rfl⟩ := List.cons.inj hsplit
        exact hhead
      | cons e'' before =>
        obtain ⟨rfl, rfl⟩ := List.cons.inj hsplit
        rw [strategyViolations_cons]
        exact htail before e' after rfl
    · intro hall
      refine ⟨hall [] e rest rfl, fun before e' after hsplit => ?_⟩
      have hlater := hall (e :: before) e' after (by rw [hsplit]; rfl)
      rw [strategyViolations_cons] at hlater
      exact hlater

/-! ### Constraints -/

/-- The constraint engine of a type model finds nothing just when no constraint that
belongs to one of the groups is broken. Stopping at the first group that has violations
never hides that there are some. -/
theorem constrained_eq_nil_iff {e : Engine} {m : TypeModel}
    (hconstraints : e.env.constraints = .ofTypes m) {b : Bound} {value : Value}
    {groups : List String} :
    e.constrained b value groups = [] ↔
      ∀ k ∈ e.env.constraints.constraintsOf b.owner.typeName b.details.property,
        k.appliesToAny groups = true → e.env.constraints.check k value = [] := by
  -- Within one group no constraint hides another one.
  have hgroup : ∀ group,
      Constraints.valueViolations b.owner.typeName b.details.property
          (m.constraintsOf b.owner.typeName b.details.property) value group = [] ↔
        ∀ k ∈ m.constraintsOf b.owner.typeName b.details.property,
          k.appliesTo group = true → k.check value = [] := by
    intro group
    simp [Constraints.valueViolations, Constraint.check]
  have hall : e.constrained b value groups = [] ↔ ∀ group ∈ groups,
      Constraints.valueViolations b.owner.typeName b.details.property
        (m.constraintsOf b.owner.typeName b.details.property) value group = [] := by
    rw [constrained, hconstraints]
    cases groups with
    | nil => simp
    | cons group rest => exact firstFound_eq_nil_iff
  rw [hall, hconstraints]
  -- The engine goes group by group, the other side constraint by constraint.
  show _ ↔ ∀ k ∈ m.constraintsOf b.owner.typeName b.details.property,
    groups.any k.appliesTo = true → k.check value = []
  constructor
  · intro hnone k hk happlies
    obtain ⟨group, hmem, hgroup'⟩ := List.any_eq_true.1 happlies
    exact (hgroup group).1 (hnone group hmem) k hk hgroup'
  · intro hnone group hmem
    refine (hgroup group).2 fun k hk happlies => hnone k hk ?_
    exact List.any_eq_true.2 ⟨group, hmem, happlies⟩

/-! ### Reports -/

/-- Registries in which the reviewer of every component is the standard one, however far
look-ups have brought them. -/
structure StandardReviewers (base : Registry Identity Reviewer) : Prop where
  steady : base.Steady
  keyed : base.KeyedBy fun i => i.componentType
  first : ∀ i, base.first? i = some .standard

theorem StandardReviewers.reviewerFor {base : Registry Identity Reviewer}
    (hbase : StandardReviewers base) {p : Plugins}
    (hp : Registry.Offshoot (fun i => i.componentType) base p.reviewers) (i : Identity) :
    (Plugins.reviewerFor i p).1 = some .standard :=
  ((hp.resolve hbase.steady hbase.keyed i).1).trans (hbase.first i)

/-- With the standard reviewer all violations are reported. -/
theorem report_eq_none_iff {base : Registry Identity Reviewer} (hbase : StandardReviewers base)
    {p : Plugins} (hp : Registry.Offshoot (fun i => i.componentType) base p.reviewers) (e : Engine)
    (i : Identity) (violations : List Violation) :
    (e.report i violations p).1 = none ↔ violations = [] := by
  cases violations with
  | nil => simp [report_nil]
  | cons first rest =>
    -- A reviewer can keep a failure from being reported; the standard one never does.
    have hreview : (review i (first :: rest) (.error (labelled first)) p).1.1 = true := by
      rw [review, run_bind, hbase.reviewerFor hp]
      rfl
    rw [report_cons, hreview]
    simp

/-! ### Rendering -/

/-- The metadata of a component, given the constraints that are selected for it: that of its
annotations, with that of the constraints merged in. In between the groups are resolved, which
changes the request. -/
def metadataWith (e : Engine) (r resolved : Request) (c : Component) (b : Bound)
    (selected : List Constraint) : StateM Plugins Metadata := do
  let own ← Plugins.metadataOf e.env r b.info
  let fromConstraints ← mergeConstraints e.env resolved b.details c.valueBinding ∅ selected
  pure (own.merge fromConstraints)

/-- The constraints of a property that belong to one of the groups that a submission of the
component resolves. -/
def selected (e : Engine) (c : Component) (b : Bound) (r : Request) : List Constraint :=
  activeConstraints e.env b.owner.typeName b.details.property
    (Groups.resolve e.env c.identity b.details true r).1

/-- The request in which a component is configured: its metadata is being extracted. -/
def rendering (c : Component) (r : Request) : Request :=
  (r.setStage c.clientId .init).setStage c.clientId .metadataExtracted

theorem init_of_bound {e : Engine} {c : Component} {s : Session} {b : Bound}
    (hbound : e.bound? (s.request.setStage c.clientId .init) c = some b) :
    e.init c s = e.configure c b ⟨s.plugins, rendering c s.request⟩ := by
  have hcurrent : (Session.current (Session.setStage c.clientId .init s).2).1
      = s.request.setStage c.clientId .init := rfl
  have hextract := (extract_of_bound hbound).1
  rw [bound?, hextract] at hbound
  dsimp only at hbound
  rw [init, run_bind, run_bind, hcurrent, hextract]
  dsimp only
  rw [run_bind, hbound]
  rfl

theorem metadata_configure (e : Engine) (c : Component) (b : Bound) (s : Session) :
    (e.configure c b s).1.1
      = (Plugins.metadataOf e.env s.request b.info s.plugins).1.merge
          (mergeConstraints e.env (Groups.resolve e.env c.identity b.details false s.request).2
            b.details c.valueBinding ∅
            (activeConstraints e.env b.owner.typeName b.details.property
              (Groups.resolve e.env c.identity b.details false s.request).1)
            (Plugins.metadataOf e.env s.request b.info s.plugins).2).1 := rfl

/-- Rendering a component selects these constraints, and its metadata is that of the
annotations with that of these constraints merged in. -/
structure Renders (e : Engine) (c : Component) (b : Bound) (s : Session)
    (constraints : List Constraint) : Prop where
  selects : activeConstraints e.env b.owner.typeName b.details.property
    (Groups.resolve e.env c.identity b.details false s.request).1 = constraints
  metadata : (e.init c s).1.1 = (e.metadataWith (rendering c s.request)
    (Groups.resolve e.env c.identity b.details false (rendering c s.request)).2 c b constraints
    s.plugins).1

/-- Rendering selects the constraints of the groups that it resolves. -/
theorem renders_of_bound {e : Engine} {c : Component} {s : Session} {b : Bound}
    (hbound : e.bound? (s.request.setStage c.clientId .init) c = some b) :
    e.Renders c b s (activeConstraints e.env b.owner.typeName b.details.property
      (Groups.resolve e.env c.identity b.details false s.request).1) := by
  -- The stages that rendering sets are not part of what the groups are resolved from.
  have hgroups : (Groups.resolve e.env c.identity b.details false (rendering c s.request)).1
      = (Groups.resolve e.env c.identity b.details false s.request).1 :=
    Groups.resolve_congr rfl rfl
  refine ⟨rfl, ?_⟩
  rw [init_of_bound hbound, metadata_configure, hgroups]
  rfl

/-- Rendering leaves the page as it is, and the groups of the component as it resolves them. -/
theorem offers_init {e : Engine} {c : Component} {s : Session} {b : Bound}
    (hbound : e.bound? (s.request.setStage c.clientId .init) c = some b) :
    (e.init c s).2.request.Offers c.clientId s.request.page
      ((Groups.resolve e.env c.identity b.details false s.request).2.ledger.sets
        (s.request.owner c.clientId)) := by
  rw [init_of_bound hbound, Groups.sets_resolve]
  have hrequest : (e.configure c b ⟨s.plugins, rendering c s.request⟩).2.request
      = (Groups.resolve e.env c.identity b.details false (rendering c s.request)).2.setStage
          c.clientId .configured := rfl
  rw [hrequest, Groups.resolve_eq]
  exact ⟨rfl, GroupLedger.sets_switchAll _ _ _ _ _⟩

/-- A validated submission leaves the page as it is, and the groups of the component as it
resolves them. -/
theorem offers_submit {e : Engine} (hhooks : e.hooks = []) {c : Component} {text : String}
    (heditable : c.editable = true) {value : Value} (hconvert : c.convert text = .ok value)
    {s : Session} {b : Bound}
    (hbound : e.bound? (e.recorded c value s.request) c = some b) :
    (e.submit c text s).2.request.Offers c.clientId (e.recorded c value s.request).page
      ((Groups.resolve e.env c.identity b.details true
        (e.recorded c value s.request)).2.ledger.sets
          ((e.recorded c value s.request).owner c.clientId)) := by
  rw [submit_of_converted heditable hconvert, hbound, Groups.sets_resolve]
  obtain ⟨stage, hrequest⟩ := request_validateHooked e c b (interpreted e.env.settings value) hhooks
    ⟨s.plugins, e.recorded c value s.request⟩
  show Request.Offers _ _ _ (e.validateHooked c b (interpreted e.env.settings value)
    ⟨s.plugins, e.recorded c value s.request⟩).2.request
  rw [hrequest, reportIn_snd, violations_snd, Groups.resolve_eq]
  exact ⟨rfl, GroupLedger.sets_switchAll _ _ _ _ _⟩

/-- When the recorders see the value in this request, they leave alone what submissions of the
component read. -/
def RecordsQuietly (e : Engine) (c : Component) (value : Value) (r : Request) : Prop :=
  (e.recorded c value r).Offers c.clientId r.page (r.ledger.sets (r.owner c.clientId))

/-- The standard recorder always does. -/
theorem recordsQuietly_of_standard {e : Engine} (h : e.recorders = [.standard]) (c : Component)
    (value : Value) (r : Request) : e.RecordsQuietly c value r :=
  offers_recorded h c value ⟨rfl, rfl⟩

section

variable {e : Engine} {c : Component} {value : Value} {s : Session} {b : Bound}

/-- After a validated submission rendering selects the constraints that it demanded. -/
theorem renders_submit (hextractor : e.extractor = .standard) (hhooks : e.hooks = [])
    (heditable : c.editable = true) {text : String} (hconvert : c.convert text = .ok value)
    (hbound : e.bound? (e.recorded c value s.request) c = some b) :
    e.Renders c b (e.submit c text s).2 (e.selected c b (e.recorded c value s.request)) := by
  have hoffers := offers_submit hhooks heditable hconvert hbound
  have hgroups : (Groups.resolve e.env c.identity b.details false (e.submit c text s).2.request).1
      = (Groups.resolve e.env c.identity b.details true (e.recorded c value s.request)).1 :=
    Groups.resolve_again hoffers.page hoffers.sets
  have hpage : ((e.submit c text s).2.request.setStage c.clientId .init).page
      = (e.recorded c value s.request).page := hoffers.page
  have hrenders := renders_of_bound ((bound?_of_page hextractor hpage c).trans hbound)
  rw [hgroups] at hrenders
  exact hrenders

/-- The property is known before a submission, too, if the recorders leave alone what is read. -/
theorem bound_quiet (hextractor : e.extractor = .standard)
    (hquiet : e.RecordsQuietly c value s.request)
    (hbound : e.bound? (e.recorded c value s.request) c = some b) :
    e.bound? (s.request.setStage c.clientId .init) c = some b := by
  have hpage : (s.request.setStage c.clientId .init).page = (e.recorded c value s.request).page :=
    hquiet.page.symm
  exact (bound?_of_page hextractor hpage c).trans hbound

/-- Before a submission rendering selects the constraints that it will demand, if the
recorders leave alone what is read. -/
theorem renders_quiet (hextractor : e.extractor = .standard)
    (hquiet : e.RecordsQuietly c value s.request)
    (hbound : e.bound? (e.recorded c value s.request) c = some b) :
    e.Renders c b s (e.selected c b (e.recorded c value s.request)) := by
  have hgroups : (Groups.resolve e.env c.identity b.details true (e.recorded c value s.request)).1
      = (Groups.resolve e.env c.identity b.details false s.request).1 :=
    Groups.resolve_congr hquiet.page hquiet.sets
  rw [selected, hgroups]
  exact renders_of_bound (bound_quiet hextractor hquiet hbound)

/-- Rendering in between does not change which constraints a submission demands. -/
theorem selected_init (hextractor : e.extractor = .standard)
    (hquiet : e.RecordsQuietly c value s.request)
    (hagain : e.RecordsQuietly c value (e.init c s).2.request)
    (hbound : e.bound? (e.recorded c value s.request) c = some b) :
    e.selected c b (e.recorded c value (e.init c s).2.request)
      = e.selected c b (e.recorded c value s.request) := by
  have hbefore := (renders_quiet hextractor hquiet hbound).selects
  -- Rendering switches the groups that the submission switches once more.
  have hinit := offers_init (bound_quiet hextractor hquiet hbound)
  have hgroups : (Groups.resolve e.env c.identity b.details true
      (e.recorded c value (e.init c s).2.request)).1
      = (Groups.resolve e.env c.identity b.details false s.request).1 :=
    Groups.resolve_again (hagain.page.trans hinit.page) (hagain.sets.trans hinit.sets)
  rw [← hbefore, selected, hgroups]

end

/-! ### Acceptance -/

/-- What is demanded of a value: that the strategies of the annotations have no complaint, and
that it breaks no constraint that belongs to one of the groups of the component. -/
structure Accepts (e : Engine) (c : Component) (b : Bound) (s : Session) (value : Value) :
    Prop where
  strategies : ∀ before entry after, b.info.entries = before ++ entry :: after →
    PassesEntry e.env s.request value entry
      (strategyViolations e.env s.request b value before s.plugins).2
  constraints : ∀ k ∈ e.selected c b s.request, e.env.constraints.check k value = []

/-- The validation of a value is valid just when the value is accepted. -/
theorem isValid_validateHooked_iff {e : Engine} {m : TypeModel}
    (hconstraints : e.env.constraints = .ofTypes m) (hhooks : e.hooks = [])
    {base : Registry Identity Reviewer} (hbase : StandardReviewers base) {c : Component}
    {b : Bound} {s : Session}
    (hs : Registry.Offshoot (fun i => i.componentType) base s.plugins.reviewers) (value : Value) :
    (e.validateHooked c b value s).1.isValid = true ↔ e.Accepts c b s value := by
  have hkept : Registry.Offshoot (fun i => i.componentType) base
      (e.violations c b value s).2.plugins.reviewers :=
    (Plugins.stable_reviewers hbase.steady hbase.keyed).strategyViolations e.env
      s.request b value b.info.entries s.plugins hs
  have houtcome : ∀ failure? : Option Failure,
      (outcomeOf failure?).isValid = true ↔ failure? = none := by
    intro failure?
    cases failure? with
    | none => simp [outcomeOf, Outcome.isValid]
    | some failure => simp [outcomeOf, Outcome.isValid]
  -- Nothing is reported just when neither the strategies nor the constraints find anything.
  rw [outcome_validateHooked e c b value hhooks, houtcome, report_eq_none_iff hbase hkept,
    violations_fst, List.append_eq_nil_iff, strategyViolations_eq_nil_iff,
    constrained_eq_nil_iff hconstraints]
  constructor
  · rintro ⟨hstrategies, hconstrained⟩
    refine ⟨hstrategies, fun k hk => ?_⟩
    obtain ⟨hmem, happlies⟩ := List.mem_filter.1 hk
    exact hconstrained k hmem happlies
  · intro haccepts
    exact ⟨haccepts.strategies, fun k hmem happlies =>
      haccepts.constraints k (List.mem_filter.2 ⟨hmem, happlies⟩)⟩

/-- A submission is valid just when its text converts to an accepted value. -/
theorem valid_submit_iff {e : Engine} {m : TypeModel}
    (hconstraints : e.env.constraints = .ofTypes m) (hhooks : e.hooks = [])
    {base : Registry Identity Reviewer} (hbase : StandardReviewers base) {c : Component}
    {s : Session} (hs : Registry.Offshoot (fun i => i.componentType) base s.plugins.reviewers)
    (heditable : c.editable = true) {text : String}
    (hbound : ∀ v, c.convert text = .ok v →
      ∃ b, e.bound? (e.recorded c v s.request) c = some b) :
    (e.submit c text s).1.isValid = true ↔
      ∃ v b, c.convert text = .ok v ∧ e.bound? (e.recorded c v s.request) c = some b ∧
        e.Accepts c b ⟨s.plugins, e.recorded c v s.request⟩ (interpreted e.env.settings v) := by
  cases hconvert : c.convert text with
  | error fault =>
    rw [submit_of_refused heditable hconvert]
    constructor
    · intro hvalid
      cases hvalid
    · rintro ⟨v, b, hv, _⟩
      cases hv
  | ok v =>
    obtain ⟨b, hb⟩ := hbound v hconvert
    have hsubmit : e.submit c text s
        = e.validateHooked c b (interpreted e.env.settings v)
            ⟨s.plugins, e.recorded c v s.request⟩ := by
      rw [submit_of_converted heditable hconvert, hb]
    have hvalid := isValid_validateHooked_iff hconstraints hhooks hbase (c := c) (b := b)
      (s := ⟨s.plugins, e.recorded c v s.request⟩) hs (interpreted e.env.settings v)
    rw [hsubmit, hvalid]
    constructor
    · intro haccepts
      exact ⟨v, b, rfl, hb, haccepts⟩
    · rintro ⟨v', b', hv', hb', haccepts⟩
      cases hv'
      rw [hb] at hb'
      cases hb'
      exact haccepts

end Engine

namespace EngineParts

/-- Parts with the standard extractor, the constraint engine of their types, the standard
reviewer and no hooks. Strategies, transformers, initializers and recorders are free. -/
structure Plain (parts : EngineParts) : Prop where
  extractor : parts.extractor = .standard
  constraints : parts.constraints = none
  reviewer : ∀ name ∈ parts.settings.reviewer, name = Reviewer.standardName
  reviewers : parts.reviewers.Makes Reviewer.standardName .standard
  hooks : parts.hooks = []

/-- Parts are such if an application has set or replaced none of these. -/
theorem plain_of_unset {parts : EngineParts} (hextractor : parts.settings.extractor = none)
    (hreviewer : parts.settings.reviewer = none) (hconstraints : parts.constraints = none)
    (hreviewers : parts.reviewers = Reviewer.catalog) (hhooks : parts.hooks = []) :
    parts.Plain where
  extractor := by rw [EngineParts.extractor, hextractor]
  constraints := hconstraints
  reviewer name hname := by
    rw [hreviewer] at hname
    cases hname
  reviewers := by
    rw [hreviewers]
    exact ⟨.always .standard, rfl, Factory.makes_always _⟩
  hooks := hhooks

theorem Plain.standardReviewers {parts : EngineParts} (h : parts.Plain) :
    Engine.StandardReviewers parts.engine.plugins.reviewers := by
  have hnames : ∀ i, (parts.engine.plugins.reviewers.candidates i).head?
      = some Reviewer.standardName := by
    intro i
    show ((Plugins.reviewerRegistry parts.settings parts.reviewers).candidates i).head? = _
    cases hset : parts.settings.reviewer with
    | none => simp [Plugins.reviewerRegistry, Registry.candidates, Mapper.fixed, hset]
    | some name =>
      simp [Plugins.reviewerRegistry, Registry.candidates, Mapper.fixed, hset,
        h.reviewer name hset]
  obtain ⟨hsteady, hfirst⟩ := Registry.first?_of_makes hnames h.reviewers
  exact ⟨hsteady, parts.keyed_reviewers, hfirst⟩

end EngineParts

/-- A session whose registries have come from those of the engine by calls for any requests;
its own request may be any. -/
def Engine.Reaches (e : Engine) (s : Session) : Prop :=
  ∃ history request, s.plugins = (Event.runAll e history (Session.start e request)).plugins

/-- However many look-ups the earlier calls have made, the reviewers are those of the engine. -/
theorem EngineParts.reviewers_of_reaches {parts : EngineParts}
    (hbase : Engine.StandardReviewers parts.engine.plugins.reviewers) {s : Session}
    (hs : parts.engine.Reaches s) :
    Registry.Offshoot (fun i => i.componentType) parts.engine.plugins.reviewers
      s.plugins.reviewers := by
  obtain ⟨history, request, hplugins⟩ := hs
  rw [hplugins]
  exact Event.plugins_runAll (Plugins.stable_reviewers hbase.steady hbase.keyed) history
    parts.offshoot_start.reviewers

/-- What a submission accepts. Take an engine with the standard extractor, constraint engine
and reviewer and without hooks, after any calls, and an editable component that is bound to
a readable property of an object of a known type. The submission is valid just when the
text converts and the value is accepted: no strategy that is found and works has a
complaint, and no constraint of one of the groups is broken. The constraints that this
demands are those that rendering the component selects, after the submission, and before it
if the recorders leave the page and the groups alone when they see the value; rendering before
the submission does not change what that demands. See `submit_demands_more` for a recorder that
does otherwise. -/
theorem submit_accepts_iff {parts : EngineParts} (h : parts.Plain) {s : Session}
    (hs : parts.engine.Reaches s) {c : Component} (heditable : c.editable = true) {text : String}
    (hresolves : ∀ v, c.convert text = .ok v → ∃ typeName property, Extraction.Resolves
      parts.engine.env (parts.engine.recorded c v s.request).page c typeName property) :
    let e := parts.engine
    ((e.submit c text s).1.isValid = true ↔
      ∃ v b, c.convert text = .ok v ∧ e.bound? (e.recorded c v s.request) c = some b ∧
        e.Accepts c b ⟨s.plugins, e.recorded c v s.request⟩ (Engine.interpreted e.env.settings v)) ∧
    ∀ v, c.convert text = .ok v → ∃ b, e.bound? (e.recorded c v s.request) c = some b ∧
      let demanded := e.selected c b (e.recorded c v s.request)
      e.Renders c b (e.submit c text s).2 demanded ∧
      (e.RecordsQuietly c v s.request →
        e.Renders c b s demanded ∧
        (e.RecordsQuietly c v (e.init c s).2.request →
          e.selected c b (e.recorded c v (e.init c s).2.request) = demanded)) := by
  intro e
  have hconstraints : e.env.constraints = .ofTypes parts.types := by
    show parts.constraints.getD _ = _
    rw [h.constraints]
    rfl
  have hbound : ∀ v, c.convert text = .ok v →
      ∃ b, e.bound? (e.recorded c v s.request) c = some b := by
    intro v hv
    obtain ⟨typeName, property, hresolved⟩ := hresolves v hv
    exact Engine.bound?_of_resolves h.extractor hresolved
  refine ⟨Engine.valid_submit_iff hconstraints h.hooks h.standardReviewers
    (EngineParts.reviewers_of_reaches h.standardReviewers hs) heditable hbound, fun v hv => ?_⟩
  obtain ⟨b, hb⟩ := hbound v hv
  refine ⟨b, hb, Engine.renders_submit h.extractor h.hooks heditable hv hb, fun hquiet => ⟨?_, ?_⟩⟩
  · exact Engine.renders_quiet h.extractor hquiet hb
  · exact fun hagain => Engine.selected_init h.extractor hquiet hagain hb

/-- An engine for one type: a code must have two characters at least, and in the default
group it must not be null. -/
def codeParts : EngineParts where
  types := .ofTypes
    [{ name := "Product", properties :=
        [((PropertyDecl.new "code").onField (.length { minimum := 2 })).onField
          (.constraint { rule := .notNull })] }]

/-- A page with one product. -/
def productPage : Request :=
  .new "/edit" (Dict.ofList [("product", .object (Record.ofType "Product"))])

/-- A field for the code of a product, on an engine that has just been built: the text is
valid, so no strategy has a complaint about it and it breaks no constraint. Rendering the
field selects the one constraint that this demands. -/
theorem submit_accepts_iff_code :
    let e := codeParts.engine
    let s := Session.start e productPage
    let c : Component := { clientId := "form:code", valueBinding := some "#\x7bproduct.code\x7d" }
    (e.submit c "X1" s).1.isValid = true ∧ (e.submit c "X" s).1.isValid = false ∧
    ∃ v b, c.convert "X1" = .ok v ∧ e.bound? (e.recorded c v s.request) c = some b ∧
      e.Accepts c b ⟨s.plugins, e.recorded c v s.request⟩
        (Engine.interpreted e.env.settings v) ∧
      e.Renders c b s (e.selected c b (e.recorded c v s.request)) := by
  intro e s c
  have hplain : codeParts.Plain := EngineParts.plain_of_unset rfl rfl rfl rfl rfl
  have hquiet : ∀ v r, e.RecordsQuietly c v r := Engine.recordsQuietly_of_standard rfl c
  have hresolves : ∀ v, c.convert "X1" = .ok v → ∃ typeName property,
      Extraction.Resolves e.env (e.recorded c v s.request).page c typeName property := by
    intro v _
    rw [(hquiet v s.request).page]
    exact ⟨"Product", "code", by decide +kernel, by decide +kernel, by decide +kernel⟩
  have hvalid : (e.submit c "X1" s).1.isValid = true := by decide +kernel
  obtain ⟨hiff, hrenders⟩ := submit_accepts_iff hplain ⟨[], productPage, rfl⟩ rfl hresolves
  obtain ⟨v, b, hv, hb, haccepts⟩ := hiff.1 hvalid
  obtain ⟨b', hb', -, hbefore⟩ := hrenders v hv
  have hsame : b' = b := Option.some.inj (hb'.symm.trans hb)
  subst hsame
  exact ⟨hvalid, by decide +kernel, v, b', hv, hb, haccepts, (hbefore (hquiet v s.request)).1⟩

/-! ### A recorder that switches a group on -/

/-- A recorder that switches a group on for every component that it sees. -/
def draftRecorder : Recorder where
  record _ c _ r := { r with ledger := r.ledger.activate (r.owner c.clientId) "Draft" }

/-- An engine with that recorder: in the group a code must not be null. -/
def draftCodeParts : EngineParts where
  types := .ofTypes
    [{ name := "Product", properties :=
        [(PropertyDecl.new "code").onField (.constraint { rule := .notNull, groups := ["Draft"] })] }]
  recorders := [draftRecorder]

/-- Recorders run between the rendering of a component and its validation. The group is switched
on by then, so the submission fails by a constraint that rendering has not selected. -/
theorem submit_demands_more :
    let e := draftCodeParts.engine
    let s := Session.start e productPage
    let c : Component := { clientId := "form:code", valueBinding := some "#\x7bproduct.code\x7d" }
    draftCodeParts.Plain ∧ e.Reaches s ∧
    Extraction.Resolves e.env (e.recorded c (.text "") s.request).page c "Product" "code" ∧
    c.convert "" = .ok (.text "") ∧ (e.submit c "" s).1.isValid = false ∧
    ∃ b, e.bound? (e.recorded c (.text "") s.request) c = some b ∧
      e.bound? (s.request.setStage c.clientId .init) c = some b ∧ e.Renders c b s [] ∧
      ¬ e.Renders c b s (e.selected c b (e.recorded c (.text "") s.request)) := by
  intro e s c
  have hplain : draftCodeParts.Plain := EngineParts.plain_of_unset rfl rfl rfl rfl rfl
  have hresolves : Extraction.Resolves e.env (e.recorded c (.text "") s.request).page c
      "Product" "code" := ⟨by decide +kernel, by decide +kernel, by decide +kernel⟩
  obtain ⟨b, hb⟩ := Engine.bound?_of_resolves hplain.extractor hresolves
  have hb' : e.bound? (s.request.setStage c.clientId .init) c = some b := by
    rw [← hb]
    exact Engine.bound?_of_page rfl rfl c
  have hrendered : (e.bound? (e.recorded c (.text "") s.request) c).map (fun b =>
      (Engine.activeConstraints e.env b.owner.typeName b.details.property
        (Groups.resolve e.env c.identity b.details false s.request).1).isEmpty) = some true := by
    decide +kernel
  have hdemanded : (e.bound? (e.recorded c (.text "") s.request) c).map (fun b =>
      (e.selected c b (e.recorded c (.text "") s.request)).isEmpty) = some false := by
    decide +kernel
  rw [hb] at hrendered hdemanded
  have hnone := List.isEmpty_iff.1 (Option.some.inj hrendered)
  have hsome : (e.selected c b (e.recorded c (.text "") s.request)).isEmpty = false :=
    Option.some.inj hdemanded
  have hrenders := Engine.renders_of_bound hb'
  rw [hnone] at hrenders
  refine ⟨hplain, ⟨[], productPage, rfl⟩, hresolves, rfl, by decide +kernel, b, hb, hb', hrenders,
    fun hclaimed => ?_⟩
  rw [← hclaimed.selects, hnone] at hsome
  exact absurd hsome (by decide)

end FieldGuard
