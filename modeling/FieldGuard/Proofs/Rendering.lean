import FieldGuard.Proofs.Acceptance
import FieldGuard.Proofs.Configuration
import Mathlib.Data.List.Basic

/-!
# `FieldGuard.Proofs.Rendering`: rendering a component twice is rendering it once

The second time much has changed: groups are switched on and off, the registries have kept what
was looked up, and the component carries what the first time has written. None of it shows. The
groups that are switched are switched already, look-ups answer from what they have kept as they
did without it, and configuring a configured component changes nothing.

* `Plugins.SteadyMetadata.settled_metadataWith`: the metadata does not depend on what look-ups
  have kept;
* `Plugins.SteadyMetadata.agree_metadataWith`: nor on what rendering has changed of the request;
* `Engine.component_init`, `Engine.request_init`: what rendering leaves;
* `Engine.Rendered.metadata`, `Engine.Rendered.sets`: what it meets the second time;
* `init_idem`: a component that is rendered again stays as it is, and so do the groups and the
  queue.
-/

set_option autoImplicit false

namespace FieldGuard

/-! ### Look-ups of metadata -/

/-- The request apart from what rendering changes: the groups of components, and their stages. -/
def Request.unrendered (r : Request) : Request :=
  { r with ledger := {}, stages := ∅ }

/-- Of the request, the transformer reads nothing that rendering changes. -/
def Transformer.IgnoresRendering (t : Transformer) : Prop :=
  ∀ env r r', r.unrendered = r'.unrendered → t.Alike env env r r'

theorem Transformer.ignoresRendering_of_standard {t : Transformer}
    (ht : t ∈ Transformer.standard) : t.IgnoresRendering :=
  fun env r r' _ => Transformer.alike_of_standard ht env env r r'

namespace Plugins

/-- Registries of strategies and transformers that have come from the base ones by look-ups. -/
structure MetadataOffshoot (base p : Plugins) : Prop where
  strategies : Registry.Offshoot id base.strategies p.strategies
  transformers : Registry.Offshoot Strategy.name base.transformers p.transformers

/-- Strategies and transformers that do not depend on what was made before them, where a
transformer goes by the name of the strategy. The transformers do not see what rendering
changes. -/
structure SteadyMetadata (base : Plugins) : Prop where
  strategies : base.strategies.Steady
  transformers : base.transformers.Steady
  keyed : base.transformers.KeyedBy Strategy.name
  unseen : base.transformers.catalog.Offers Transformer.IgnoresRendering

namespace SteadyMetadata

variable {base : Plugins}

theorem stable (h : base.SteadyMetadata) : Stable (MetadataOffshoot base) where
  strategyFor key _ hp :=
    ⟨(hp.strategies.resolve h.strategies (keyedBy_id _) key).2, hp.transformers⟩
  transformerFor s _ hp := ⟨hp.strategies, (hp.transformers.resolve h.transformers h.keyed s).2⟩
  reviewerFor _ _ hp := ⟨hp.strategies, hp.transformers⟩

theorem settled_strategyFor (h : base.SteadyMetadata) (key : String) :
    Settled (MetadataOffshoot base) (strategyFor key) :=
  Settled.of_answer fun _ hp => (hp.strategies.resolve h.strategies (keyedBy_id _) key).1

theorem settled_transformerFor (h : base.SteadyMetadata) (s : Strategy) :
    Settled (MetadataOffshoot base) (transformerFor s) :=
  Settled.of_answer fun _ hp => (hp.transformers.resolve h.transformers h.keyed s).1

theorem settled_mergeEntries (h : base.SteadyMetadata)
    {transformOne : Strategy → Entry → StateM Plugins (Option Metadata)}
    (hkeeps : ∀ s e, Keeps (MetadataOffshoot base) (transformOne s e))
    (hone : ∀ s e, Settled (MetadataOffshoot base) (transformOne s e)) (metadata : Metadata)
    (entries : List Entry) :
    Settled (MetadataOffshoot base) (mergeEntries transformOne metadata entries) := by
  induction entries generalizing metadata with
  | nil => exact Settled.pure _
  | cons e rest ih =>
    rw [mergeEntries]
    refine (h.settled_strategyFor e.key).bind (h.stable.strategyFor e.key) fun found => ?_
    cases found with
    | none => exact ih metadata
    | some s => exact (hone s e).bind (hkeeps s e) fun _ => ih _

theorem settled_convertWith (h : base.SteadyMetadata)
    {transformOne : Strategy → Entry → StateM Plugins (Option Metadata)}
    (hkeeps : ∀ s e, Keeps (MetadataOffshoot base) (transformOne s e))
    (hone : ∀ s e, Settled (MetadataOffshoot base) (transformOne s e)) (env : Environment)
    (r : Request) (t : Transformer) (e : Entry) :
    Settled (MetadataOffshoot base) (convertWith transformOne env r t e).run := by
  unfold convertWith
  cases t.conversion with
  | own convert => exact Settled.pure _
  | join =>
    -- The entries that a join borrows come from its own entry, not from look-ups.
    refine settled_attempt_bind (Keeps.pure _) (Settled.pure _) fun targets => ?_
    exact (h.settled_mergeEntries hkeeps hone _ _).bind (h.stable.mergeEntries hkeeps _ _)
      fun _ => Settled.pure _

theorem settled_transformWith (h : base.SteadyMetadata)
    {transformOne : Strategy → Entry → StateM Plugins (Option Metadata)}
    (hkeeps : ∀ s e, Keeps (MetadataOffshoot base) (transformOne s e))
    (hone : ∀ s e, Settled (MetadataOffshoot base) (transformOne s e)) (env : Environment)
    (r : Request) (s : Strategy) (e : Entry) :
    Settled (MetadataOffshoot base) (transformWith transformOne env r s e) := by
  rw [transformWith]
  refine (h.settled_transformerFor s).bind (h.stable.transformerFor s) fun found => ?_
  cases found with
  | none => exact Settled.pure _
  | some t =>
    refine (h.settled_convertWith hkeeps hone env r t e).bind
      (h.stable.convertWith hkeeps env r t e) fun result => ?_
    cases result with
    | ok metadata => exact Settled.pure _
    | error fault => exact Settled.pure _

theorem settled_transform (h : base.SteadyMetadata) (env : Environment) (r : Request)
    (s : Strategy) (e : Entry) : Settled (MetadataOffshoot base) (transform env r s e) := by
  have hkeeps : ∀ s e, Keeps (MetadataOffshoot base) (transformLent env r s e) :=
    h.stable.transformWith (fun _ _ => Keeps.pure _) env r
  have hlent : ∀ s e, Settled (MetadataOffshoot base) (transformLent env r s e) :=
    h.settled_transformWith (fun _ _ => Keeps.pure _) (fun _ _ => Settled.pure _) env r
  exact h.settled_transformWith hkeeps hlent env r s e

theorem settled_mergeConstraints (h : base.SteadyMetadata) (env : Environment) (r : Request)
    (d : Details) (binding : Option String) (metadata : Metadata) (constraints : List Constraint) :
    Settled (MetadataOffshoot base)
      (Engine.mergeConstraints env r d binding metadata constraints) := by
  induction constraints generalizing metadata with
  | nil => exact Settled.pure _
  | cons c rest ih =>
    exact (h.settled_transform env r _ _).bind (h.stable.transform env r _ _) fun _ => ih _

/-- For the same constraints, the metadata is the same in all offshoots. -/
theorem settled_metadataWith (h : base.SteadyMetadata) (e : Engine) (r resolved : Request)
    (c : Component) (b : Engine.Bound) (constraints : List Constraint) :
    Settled (MetadataOffshoot base) (e.metadataWith r resolved c b constraints) := by
  have hown : Settled (MetadataOffshoot base) (metadataOf e.env r b.info) :=
    h.settled_mergeEntries (h.stable.transform e.env r) (h.settled_transform e.env r) _ _
  exact hown.bind (h.stable.metadataOf e.env r b.info) fun _ =>
    (h.settled_mergeConstraints _ _ _ _ _ _).bind (h.stable.mergeConstraints _ _ _ _ _ _)
      fun _ => Settled.pure _

/-- No transformer that look-ups can find tells requests apart that rendering leads to. -/
theorem convertsAlike (h : base.SteadyMetadata) (env : Environment) {r r' : Request}
    (hsame : r.unrendered = r'.unrendered) :
    ConvertsAlike (MetadataOffshoot base) env env r r' where
  stable := h.stable
  borrowed := by
    show Extraction.borrowed env r.unrendered.page = Extraction.borrowed env r'.unrendered.page
    rw [hsame]
  transformers p hp := by
    have hfound := hp.transformers.offers (fun name => ⟨⟨name, .join⟩, rfl⟩) h.unseen
    exact hfound.mono fun t ht => ht env r r' hsame

/-- So it is the same metadata for these requests, too. -/
theorem agree_metadataWith (h : base.SteadyMetadata) (e : Engine)
    {r r' resolved resolved' : Request} (hr : r.unrendered = r'.unrendered)
    (hresolved : resolved.unrendered = resolved'.unrendered) (c : Component) (b : Engine.Bound)
    (constraints : List Constraint) :
    Agree (MetadataOffshoot base) (e.metadataWith r resolved c b constraints)
      (e.metadataWith r' resolved' c b constraints) := by
  have hown := (h.convertsAlike e.env hr).agree_metadataOf b.info
  refine hown.bind (h.stable.metadataOf e.env r b.info) fun _ => ?_
  have hconstraints := (h.convertsAlike e.env hresolved).agree_mergeConstraints b.details
    c.valueBinding ∅ constraints
  exact hconstraints.bind (h.stable.mergeConstraints _ _ _ _ _ _) fun _ => Agree.refl _

end SteadyMetadata

end Plugins

/-! ### What rendering leaves -/

namespace Engine

variable {e : Engine} {c : Component} {s : Session} {b : Bound}

/-- The standard extractor asks a component for its binding, and for its client id if it has
none. -/
theorem bound?_congr (h : e.extractor = .standard) {c' : Component}
    (hclient : c'.clientId = c.clientId) (hbinding : c'.valueBinding = c.valueBinding)
    (r : Request) : e.bound? r c' = e.bound? r c := by
  have hlocate : Extraction.locate e.env r.page (.component c')
      = Extraction.locate e.env r.page (.component c) := by
    rw [Extraction.locate, Extraction.locate, hbinding, hclient]
  have hextract : e.extract r c' = e.extract r c := by
    rw [extract, extract, h]
    show Extraction.extract e.env r.page (.component c')
      = Extraction.extract e.env r.page (.component c)
    rw [Extraction.extract, Extraction.extract, hlocate]
  rw [bound?, bound?, hextract]

/-- The initializers configure a component whose property is resolved with its metadata. -/
theorem component_init (h : e.bound? (s.request.setStage c.clientId .init) c = some b) :
    (e.init c s).1.2 = Initializer.configureAll e.initializers (e.init c s).1.1 c := by
  rw [init_of_bound h]
  rfl

/-- Rendering resolves the groups of the component and leaves the queue alone. -/
theorem request_init (h : e.bound? (s.request.setStage c.clientId .init) c = some b) :
    ∃ stages, (e.init c s).2.request
      = { s.request with
          ledger := (Groups.resolve e.env c.identity b.details false s.request).2.ledger
          stages } := by
  have hrequest : (e.init c s).2.request
      = (Groups.resolve e.env c.identity b.details false (rendering c s.request)).2.setStage
          c.clientId .configured := by
    rw [init_of_bound h]
    rfl
  rw [hrequest, Groups.resolve_eq, Groups.resolve_eq]
  exact ⟨_, rfl⟩

/-- Rendering switches the groups of the property for the component. -/
theorem sets_init (h : e.bound? (s.request.setStage c.clientId .init) c = some b) (owner : Owner) :
    (e.init c s).2.request.ledger.sets owner
      = if s.request.owner c.clientId = owner then
          (s.request.ledger.sets owner).switch (Groups.additions e.env s.request.page b.details).1
            (Groups.additions e.env s.request.page b.details).2
        else s.request.ledger.sets owner := by
  obtain ⟨stages, hrequest⟩ := request_init h
  rw [hrequest]
  exact Groups.sets_resolve e.env c.identity b.details false s.request owner

/-! ### Rendering again -/

/-- A component and a session as the standard extractor and initializers leave them. -/
structure Rendered (e : Engine) (c : Component) (s : Session) (c' : Component) (s' : Session) :
    Prop where
  extractor : e.extractor = .standard
  initializers : e.initializers = Initializer.standard
  component : (e.init c s).1.2 = c'
  session : (e.init c s).2 = s'

namespace Rendered

variable {c' : Component} {s' : Session}

/-- Configuring leaves alone what a component is known by. -/
theorem source (hr : Rendered e c s c' s') (h : e.bound? (s.request.setStage c.clientId .init) c = some b) :
    c'.identity = c.identity ∧ c'.valueBinding = c.valueBinding := by
  rw [← hr.component, component_init h, hr.initializers]
  exact Initializer.source_configureAll _ c

theorem offers (hr : Rendered e c s c' s') (h : e.bound? (s.request.setStage c.clientId .init) c = some b) :
    s'.request.Offers c.clientId s.request.page
      ((Groups.resolve e.env c.identity b.details false s.request).2.ledger.sets
        (s.request.owner c.clientId)) := by
  rw [← hr.session]
  exact offers_init h

/-- On the same page, the property of the component is resolved as before. -/
theorem bound (hr : Rendered e c s c' s') (h : e.bound? (s.request.setStage c.clientId .init) c = some b) :
    e.bound? (s'.request.setStage c'.clientId .init) c' = some b := by
  obtain ⟨hidentity, hbinding⟩ := hr.source h
  have hpage : (s'.request.setStage c'.clientId .init).page
      = (s.request.setStage c.clientId .init).page := (hr.offers h).page
  rw [bound?_congr hr.extractor (congrArg Identity.clientId hidentity) hbinding,
    bound?_of_page hr.extractor hpage, h]

/-- Resolving groups for rendering changes nothing but the groups. -/
theorem unrendered_resolve (env : Environment) (i : Identity) (d : Details) (r : Request) :
    (Groups.resolve env i d false r).2.unrendered = r.unrendered := by
  rw [Groups.resolve_eq]
  rfl

theorem unrendered_eq (hr : Rendered e c s c' s')
    (h : e.bound? (s.request.setStage c.clientId .init) c = some b) :
    s'.request.unrendered = s.request.unrendered := by
  obtain ⟨stages, hrequest⟩ := request_init h
  rw [← hr.session, hrequest]
  rfl

/-- All groups are switched already, so the same constraints count, and for these the metadata is
the same. -/
theorem metadata (hr : Rendered e c s c' s') (h : e.bound? (s.request.setStage c.clientId .init) c = some b)
    {base : Plugins} (hbase : base.SteadyMetadata)
    (hs : Plugins.MetadataOffshoot base s.plugins) :
    (e.init c' s').1.1 = (e.init c s).1.1 := by
  obtain ⟨hidentity, hbinding⟩ := hr.source h
  have hoffers := hr.offers h
  have hgroups : (Groups.resolve e.env c'.identity b.details false s'.request).1
      = (Groups.resolve e.env c.identity b.details false s.request).1 := by
    rw [hidentity]
    exact Groups.resolve_again hoffers.page hoffers.sets
  have hsame : ∀ r resolved, e.metadataWith r resolved c' b = e.metadataWith r resolved c b := by
    intro r resolved
    funext constraints
    rw [metadataWith, metadataWith, hbinding]
  -- Both times the transformers are given the request as it was, up to groups and stages.
  have hrequest : (rendering c' s'.request).unrendered = (rendering c s.request).unrendered :=
    hr.unrendered_eq h
  have hresolved : (Groups.resolve e.env c'.identity b.details false
        (rendering c' s'.request)).2.unrendered
      = (Groups.resolve e.env c.identity b.details false (rendering c s.request)).2.unrendered := by
    rw [unrendered_resolve, unrendered_resolve, hrequest]
  have hkept : Plugins.MetadataOffshoot base s'.plugins := by
    rw [← hr.session]
    exact (keeps_init hbase.stable (e.frame_true c) s ⟨hs, trivial⟩).1
  rw [(renders_of_bound (hr.bound h)).metadata, (renders_of_bound h).metadata, hgroups, hsame,
    hbase.agree_metadataWith e hrequest hresolved c b _ s'.plugins hkept]
  exact hbase.settled_metadataWith e _ _ c b _ _ _ hkept hs

/-- Switching the groups of the property once more changes nothing. -/
theorem sets (hr : Rendered e c s c' s') (h : e.bound? (s.request.setStage c.clientId .init) c = some b)
    (owner : Owner) :
    (e.init c' s').2.request.ledger.sets owner = s'.request.ledger.sets owner := by
  have hclient : c'.clientId = c.clientId := congrArg Identity.clientId (hr.source h).1
  have howner : s'.request.owner c'.clientId = s.request.owner c.clientId := by
    rw [Request.owner, (hr.offers h).page, hclient]
    rfl
  rw [sets_init (hr.bound h), howner, (hr.offers h).page]
  split
  · next hown =>
    have hswitched := sets_init h owner
    rw [hr.session, if_pos hown] at hswitched
    rw [hswitched, GroupSets.switch_idem]
  · rfl

/-- A component that is rendered again gets the same metadata and stays as it is. No groups are
switched, and no model validation is queued. -/
theorem again (hr : Rendered e c s c' s') {base : Plugins} (hbase : base.SteadyMetadata)
    (hs : Plugins.MetadataOffshoot base s.plugins) :
    (e.init c' s').1 = (e.init c s).1 ∧
    (∀ owner, (e.init c' s').2.request.ledger.sets owner = s'.request.ledger.sets owner) ∧
    (e.init c' s').2.request.queue = s'.request.queue := by
  cases hbound : e.bound? (s.request.setStage c.clientId .init) c with
  | none =>
    obtain ⟨stage, hfirst⟩ := init_of_bound_none hbound
    obtain ⟨hextractor, -, hc', hs'⟩ := hr
    rw [hfirst] at hc' hs'
    have hpage : (s'.request.setStage c.clientId .init).page
        = (s.request.setStage c.clientId .init).page := by
      rw [← hs']
      rfl
    have hbound' : e.bound? (s'.request.setStage c.clientId .init) c = none := by
      rw [bound?_of_page hextractor hpage, hbound]
    obtain ⟨stage', hsecond⟩ := init_of_bound_none hbound'
    subst hc'
    rw [hsecond, hfirst]
    exact ⟨rfl, fun _ => rfl, rfl⟩
  | some b =>
    have hmetadata := hr.metadata hbound hbase hs
    have hcomponent : (e.init c' s').1.2 = (e.init c s).1.2 := by
      rw [component_init (hr.bound hbound), hmetadata, ← hr.component, component_init hbound,
        hr.initializers, Initializer.configureAll_idem]
    obtain ⟨stages, hrequest⟩ := request_init (hr.bound hbound)
    refine ⟨Prod.ext hmetadata hcomponent, hr.sets hbound, ?_⟩
    rw [hrequest]

end Rendered

end Engine

namespace EngineParts

/-- Parts with the standard extractor and initializers, and plug-ins that depend only on their
arguments: factories of strategies and transformers do not look at what was made before, and
mappers tell strategies apart by their names. A transformer is meant to turn an entry into
metadata and nothing else. The request that it is handed is not what it was the first time, so it
does not read what rendering changes of that. -/
structure PlainRendering (parts : EngineParts) : Prop where
  extractor : parts.extractor = .standard
  initializers : parts.initializers = Initializer.standard
  strategies : parts.strategies.Steady
  transformers : parts.transformers.Steady
  unseen : parts.transformers.Offers Transformer.IgnoresRendering
  mappers : ∀ mapper ∈ parts.transformerMappers, ∀ a b : Strategy, a.name = b.name →
    mapper a = mapper b

theorem PlainRendering.steady {parts : EngineParts} (h : parts.PlainRendering) :
    parts.engine.plugins.SteadyMetadata where
  strategies := Registry.steady_of_catalog h.strategies
  transformers := Registry.steady_of_catalog h.transformers
  keyed := by
    intro a b hname
    have hcustom : parts.transformerMappers.filterMap (fun mapper => mapper a)
        = parts.transformerMappers.filterMap (fun mapper => mapper b) :=
      List.filterMap_congr fun mapper hmapper => h.mappers mapper hmapper a b hname
    show (Plugins.transformerRegistry parts.settings parts.transformers
        parts.transformerMappers parts.transformerOrder).candidates a
      = (Plugins.transformerRegistry parts.settings parts.transformers
        parts.transformerMappers parts.transformerOrder).candidates b
    rw [Plugins.candidates_transformerRegistry, Plugins.candidates_transformerRegistry, hcustom,
      hname]
  unseen := h.unseen

end EngineParts

/-- Rendering is idempotent. Take an engine with the standard extractor and initializers and
plug-ins that depend only on their arguments, after any calls, and any request. A component that
is rendered a second time, as the first time has left it, gets the same metadata and keeps all
its fields. For every component in every view the groups that are switched on and off stay as
the first time has left them, and so do the model validations that wait. -/
theorem init_idem {parts : EngineParts} (h : parts.PlainRendering) {s : Session}
    (hs : parts.engine.Reaches s) (c : Component) :
    let e := parts.engine
    let first := e.init c s
    let second := e.init first.1.2 first.2
    second.1 = first.1 ∧
    (∀ owner, second.2.request.ledger.sets owner = first.2.request.ledger.sets owner) ∧
    second.2.request.queue = first.2.request.queue := by
  intro e first second
  have hsteady := h.steady
  have hkept : Plugins.MetadataOffshoot parts.engine.plugins s.plugins := by
    obtain ⟨history, request, hplugins⟩ := hs
    rw [hplugins]
    exact Event.plugins_runAll hsteady.stable history
      ⟨Registry.offshoot_self rfl, Registry.offshoot_self rfl⟩
  exact Engine.Rendered.again ⟨h.extractor, h.initializers, rfl, rfl⟩ hsteady hkept

/-! ### A field that is rendered again -/

/-- The code of a product has twenty characters at most, and in an order between two and ten.
Orders are what the pages are about. -/
def orderParts : EngineParts where
  types := .ofTypes
    [{ name := "Product", properties :=
        [(((PropertyDecl.new "code").onField (.length { maximum := 20 })).onField
          (.constraint { rule := .size 2 10, groups := ["Order"] })).onField
            (.controller { useGroups := ["Order"] })] }]

/-- The field for the code, with the validators of an earlier render and the attribute that it
has written. -/
def codeField : Component where
  clientId := "form:code"
  valueBinding := some "#\x7bproduct.code\x7d"
  attached := Dict.ofList [("length", .length none (some 8)), ("regex:a+", .regex "a+")]
  attributes := Dict.ofList [("maxlength", .int 8)]

/-- The field is rendered twice: the first time replaces what is left from earlier by what the
constraints of an order ask for, the second time changes nothing. -/
theorem init_idem_code :
    let e := orderParts.engine
    let first := e.init codeField (Session.start e productPage)
    (e.init first.1.2 first.2).1 = first.1 ∧
    first.1.2.attached.pairs = [("length", .length (some 2) (some 10))] ∧
    (first.1.2.attributes.get? "maxlength").bind Json.asUInt64? = some 10 ∧
    first.2.request.ledger.groups ⟨"/edit", "form:code"⟩ = ["Order"] := by
  intro e first
  have hplain : orderParts.PlainRendering :=
    ⟨rfl, rfl, Catalog.steady_ofList _, Catalog.steady_ofList _,
      Transformer.offers_catalog fun _ ht => Transformer.ignoresRendering_of_standard ht,
      fun mapper hmapper => by cases hmapper⟩
  have hagain := init_idem hplain ⟨[], productPage, rfl⟩ codeField
  refine ⟨hagain.1, ?_⟩
  decide +kernel

end FieldGuard
