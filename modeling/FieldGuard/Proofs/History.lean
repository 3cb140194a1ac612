import FieldGuard.Proofs.Agreement
import FieldGuard.Proofs.Lookups
import FieldGuard.Proofs.Messages
import FieldGuard.Proofs.Overrides

/-!
# `FieldGuard.Proofs.History`: what came before a submission does not matter to it

An engine serves many requests, and a request many components. What they share are the
registries, which look-ups change, and the parts of the request: groups, queue, messages,
recorded values and stages. `Event` is one call, for the request at hand or for some other
one, and `Event.runAll` a history of such calls.

* `Request.Offers`: what a submission reads from the request: the page and the sets of
  groups of its own component;
* `Event.keeps_runAll`: a history that avoids a component leaves both alone;
* `outcome_submit_congr`: sessions that offer the same have the same outcome;
* `outcome_submit_of_other`: so a submission for another component makes no difference;
* `submit_ignores_history`: the outcome after any such history, and the messages that are
  added, are those of an engine that has just been built;
* `submit_heeds_recorded`: not so with a strategy that reads what has been recorded.
-/

set_option autoImplicit false

namespace FieldGuard

/-! ### Calls -/

/-- A call of an engine for a request. -/
inductive Call where
  | init (c : Component)
  | submit (c : Component) (text : String)
  | drain

namespace Call

/-- The component that a call is for; validating whole objects is for none. -/
def component? : Call → Option Component
  | .init c => some c
  | .submit c _ => some c
  | .drain => none

/-- The session after a call. -/
def run (e : Engine) : Call → Session → Session
  | .init c, s => (e.init c s).2
  | .submit c text, s => (e.submit c text s).2
  | .drain, s => (e.drain s).2

end Call

/-- A call for the request at hand, or for another request of the same engine. -/
inductive Event where
  | here (call : Call)
  | elsewhere (request : Request) (call : Call)

namespace Event

/-- Of a call for another request only the look-ups remain. -/
def run (e : Engine) : Event → Session → Session
  | .here call, s => call.run e s
  | .elsewhere request call, s => { s with plugins := (call.run e ⟨s.plugins, request⟩).plugins }

/-- The session after a history of calls. -/
def runAll (e : Engine) (history : List Event) (s : Session) : Session :=
  history.foldl (fun s event => event.run e s) s

/-- The call is not for a component of the request at hand with the client id. -/
def Avoids (clientId : String) : Event → Prop
  | .here call => call.component?.map (·.clientId) ≠ some clientId
  | .elsewhere _ _ => True

instance (clientId : String) : DecidablePred (Avoids clientId)
  | .here _ => inferInstanceAs (Decidable (_ ≠ _))
  | .elsewhere _ _ => isTrue trivial

end Event

variable {e : Engine} {I : Plugins → Prop} {P : Request → Prop}

/-- A call keeps what look-ups keep, and what the frame of its component keeps. -/
theorem Call.keeps_run (h : Plugins.Stable I) (call : Call)
    (hP : ∀ c, call.component? = some c → e.Frame c P)
    (hmessages : ∀ clientId messages r, P r → P (r.addMessages clientId messages))
    (hqueue : ∀ r view, P r → P { r with queue := r.queue.clear view })
    {s : Session} (hs : s.Has I P) : (call.run e s).Has I P := by
  cases call with
  | init c => exact Engine.keeps_init h (hP c rfl) s hs
  | submit c text => exact Engine.keeps_submit h (hP c rfl) text s hs
  | drain => exact Engine.keeps_drain h e hmessages hqueue s hs

/-- Every history keeps what look-ups keep. -/
theorem Event.plugins_runAll (h : Plugins.Stable I) (history : List Event) {s : Session}
    (hs : I s.plugins) : I (Event.runAll e history s).plugins := by
  -- Nothing is asked of the requests here, so any frame does.
  have hcall : ∀ (call : Call) (s : Session), I s.plugins → I (call.run e s).plugins := by
    intro call s hs
    have hhas : s.Has I fun _ => True := ⟨hs, trivial⟩
    exact (call.keeps_run h (fun c _ => e.frame_true c) (fun _ _ _ hr => hr) (fun _ _ hr => hr)
      hhas).1
  induction history generalizing s with
  | nil => exact hs
  | cons event rest ih =>
    refine ih ?_
    cases event with
    | here call => exact hcall call s hs
    | elsewhere request call => exact hcall call ⟨s.plugins, request⟩ hs

/-! ### What a submission reads -/

/-- What a submission for a component reads from the request. -/
structure Request.Offers (clientId : String) (page : Page) (sets : GroupSets) (r : Request) :
    Prop where
  page : r.page = page
  sets : r.ledger.sets (r.owner clientId) = sets

namespace Engine

/-- The standard recorder leaves alone what a submission reads. -/
theorem offers_recorded (h : e.recorders = [.standard]) (c : Component) (value : Value)
    {clientId : String} {page : Page} {sets : GroupSets} {r : Request}
    (hr : r.Offers clientId page sets) : (e.recorded c value r).Offers clientId page sets := by
  obtain ⟨recorded, heq⟩ := recordAll_eq h c value
    ((r.setStage c.clientId .rawInput).setStage c.clientId .converted)
  rw [Engine.recorded, heq]
  exact ⟨hr.page, hr.sets⟩

/-- Hooks and recorders as they are unless an application adds its own. -/
structure Unhooked (e : Engine) : Prop where
  hooks : e.hooks = []
  recorders : e.recorders = [.standard]

namespace Unhooked

/-- Calls for one component leave alone what submissions for another one read. -/
theorem frame (h : e.Unhooked) {c : Component} {clientId : String} (hne : c.clientId ≠ clientId)
    (page : Page) (sets : GroupSets) : e.Frame c (Request.Offers clientId page sets) where
  setStage _ _ _ hr := ⟨hr.page, hr.sets⟩
  addMessages _ _ r hr := by
    rw [Request.addMessages_eq]
    exact ⟨hr.page, hr.sets⟩
  resolve d queues r hr := by
    have hpage := Groups.page_resolve e.env c.identity d queues r
    refine ⟨hpage.trans hr.page, ?_⟩
    have howner : (Groups.resolve e.env c.identity d queues r).2.owner clientId
        = r.owner clientId := by rw [Request.owner, hpage]; rfl
    -- The owner of a set of groups is a view with a client id, and the client ids differ.
    rw [howner, Groups.sets_resolve, if_neg]
    · exact hr.sets
    · intro hsame
      exact hne (congrArg Owner.clientId hsame)
  record value r hr := by
    obtain ⟨recorded, heq⟩ := recordAll_eq h.recorders c value r
    rw [heq]
    exact ⟨hr.page, hr.sets⟩
  before value info r hr := by
    rw [h.hooks]
    exact hr
  after value info r hr := by
    rw [h.hooks]
    exact hr

end Unhooked

end Engine

/-- A history that avoids a component leaves alone what its submissions read. -/
theorem Event.keeps_runAll (h : Plugins.Stable I) (he : e.Unhooked) {clientId : String}
    {page : Page} {sets : GroupSets} {history : List Event}
    (havoids : ∀ event ∈ history, event.Avoids clientId) {s : Session}
    (hs : s.Has I (Request.Offers clientId page sets)) :
    (Event.runAll e history s).Has I (Request.Offers clientId page sets) := by
  induction history generalizing s with
  | nil => exact hs
  | cons event rest ih =>
    -- One call keeps both parts; the rest of the history starts where it ends.
    have hevent := havoids event List.mem_cons_self
    refine ih (fun later hlater => havoids later (List.mem_cons_of_mem _ hlater)) ?_
    cases event with
    | here call =>
      refine call.keeps_run h ?_ ?_ ?_ hs
      · intro c hc
        refine he.frame (fun hsame => hevent ?_) page sets
        rw [hc, ← hsame]
        rfl
      · intro _ messages r hr
        rw [Request.addMessages_eq]
        exact ⟨hr.page, hr.sets⟩
      · exact fun _ _ hr => ⟨hr.page, hr.sets⟩
    -- A call for another request changes nothing of this one, only the look-ups.
    | elsewhere request call => exact ⟨Event.plugins_runAll h [.elsewhere request call] hs.1, hs.2⟩

/-! ### Two runs -/

/-- Of the request, the strategy reads at most what a submission for the component reads. -/
def Strategy.IsConfined (clientId : String) (s : Strategy) : Prop :=
  ∀ env page sets r r', Request.Offers clientId page sets r → Request.Offers clientId page sets r' →
    s.Alike env env r r'

/-- The same of an extractor. -/
def Extractor.IsConfined (clientId : String) (x : Extractor) : Prop :=
  ∀ env page sets r r', Request.Offers clientId page sets r → Request.Offers clientId page sets r' →
    ∀ target, x.extract env r target = x.extract env r' target

theorem Strategy.isConfined_of_standard {s : Strategy} (hs : s ∈ Strategy.standard)
    (clientId : String) : s.IsConfined clientId :=
  fun env _ _ r r' _ _ => Strategy.alike_of_standard hs env env r r'

/-- An extractor that reads the page only. -/
theorem Extractor.isConfined_ofPage (clientId : String)
    (extract : Environment → Page → Target → Except Fault PropertyInfo) :
    (Extractor.ofPage extract).IsConfined clientId := by
  intro env page sets r r' hr hr' target
  show extract env r.page target = extract env r'.page target
  rw [hr.page, hr'.page]

namespace Engine

/-- The strategies that can be made, and the extractor, read of the request at most what a
submission for the component reads. -/
structure Confined (e : Engine) (base : Plugins) (clientId : String) : Prop where
  strategies : base.strategies.catalog.Offers (Strategy.IsConfined clientId)
  extractor : e.extractor.IsConfined clientId

namespace Confined

variable {e : Engine} {base : Plugins} {c : Component} {page : Page} {sets : GroupSets}
  {r r' : Request}

/-- The same property is found. -/
theorem bound?_congr (h : e.Confined base c.clientId) (hr : r.Offers c.clientId page sets)
    (hr' : r'.Offers c.clientId page sets) : e.bound? r c = e.bound? r' c := by
  rw [bound?, bound?, extract, extract, h.extractor e.env page sets r r' hr hr']

/-- No strategy that look-ups can find tells the two requests apart. -/
theorem checksAlike (h : e.Confined base c.clientId) (hbase : base.Steady)
    (hr : r.Offers c.clientId page sets) (hr' : r'.Offers c.clientId page sets) :
    Plugins.ChecksAlike (Plugins.Offshoot base) e.env e.env r r' where
  stable := hbase.stable
  borrowed := by rw [hr.page, hr'.page]
  strategies p hp := by
    have hfound := hp.strategies.offers (fun key => ⟨key, rfl⟩) h.strategies
    exact hfound.mono fun s hs => hs e.env page sets r r' hr hr'

end Confined

end Engine

/-- Sessions that offer a component the same, on registries that have come from the same
steady ones, have the same outcome for it. -/
theorem outcome_submit_congr {base : Plugins} (hbase : base.Steady) (he : e.Unhooked)
    {c : Component} (hconfined : e.Confined base c.clientId) {page : Page} {sets : GroupSets}
    {s t : Session} (hs : s.Has (Plugins.Offshoot base) (Request.Offers c.clientId page sets))
    (ht : t.Has (Plugins.Offshoot base) (Request.Offers c.clientId page sets)) (text : String) :
    (e.submit c text s).1 = (e.submit c text t).1 := by
  cases heditable : c.editable with
  | false => rw [Engine.submit_of_not_editable heditable, Engine.submit_of_not_editable heditable]
  | true =>
    cases hconvert : c.convert text with
    | error fault =>
      rw [Engine.submit_of_refused heditable hconvert, Engine.submit_of_refused heditable hconvert]
      rfl
    | ok value =>
      have hs' := Engine.offers_recorded he.recorders c value hs.2
      have ht' := Engine.offers_recorded he.recorders c value ht.2
      rw [Engine.submit_of_converted heditable hconvert,
        Engine.submit_of_converted heditable hconvert, hconfined.bound?_congr hs' ht']
      cases e.bound? (e.recorded c value t.request) c with
      | none => rfl
      | some b =>
        -- The requests may differ, and so may the registries, but what they lead to does not.
        have hfound : (e.violations c b (Engine.interpreted e.env.settings value)
              ⟨s.plugins, e.recorded c value s.request⟩).1
            = (e.violations c b (Engine.interpreted e.env.settings value)
              ⟨t.plugins, e.recorded c value t.request⟩).1 := by
          have hagree := (hconfined.checksAlike hbase hs' ht').agree_strategyViolations b
            (Engine.interpreted e.env.settings value) b.info.entries s.plugins hs.1
          rw [Engine.violations_fst, Engine.violations_fst]
          dsimp only
          rw [hagree, hbase.settled_strategyViolations _ _ _ _ _ _ _ hs.1 ht.1,
            Groups.resolve_congr (hs'.page.trans ht'.page.symm) (hs'.sets.trans ht'.sets.symm)]
        have hkept : ∀ u : Session, u.Has (Plugins.Offshoot base)
            (Request.Offers c.clientId page sets) →
            Plugins.Offshoot base (e.violations c b (Engine.interpreted e.env.settings value)
              ⟨u.plugins, e.recorded c value u.request⟩).2.plugins :=
          fun u hu => hbase.stable.strategyViolations _ _ _ _ _ _ hu.1
        show (e.validateHooked c b _ _).1 = (e.validateHooked c b _ _).1
        rw [Engine.outcome_validateHooked _ _ _ _ he.hooks,
          Engine.outcome_validateHooked _ _ _ _ he.hooks, hfound,
          hbase.settled_report _ _ _ _ _ (hkept s hs) (hkept t ht)]

/-- A submission for another component comes first, and makes no difference. -/
theorem outcome_submit_of_other {base : Plugins} (hbase : base.Steady) (he : e.Unhooked)
    {c other : Component} (hne : other.clientId ≠ c.clientId)
    (hconfined : e.Confined base c.clientId) {s : Session} (hs : Plugins.Offshoot base s.plugins)
    (text otherText : String) :
    (e.submit c text (e.submit other otherText s).2).1 = (e.submit c text s).1 := by
  have hoffers : s.Has (Plugins.Offshoot base) (Request.Offers c.clientId s.request.page
      (s.request.ledger.sets (s.request.owner c.clientId))) := ⟨hs, rfl, rfl⟩
  have hframe := he.frame hne s.request.page (s.request.ledger.sets (s.request.owner c.clientId))
  exact outcome_submit_congr hbase he hconfined
    (Engine.keeps_submit hbase.stable hframe otherText s hoffers) hoffers text

/-- Submissions do not look at the registries that an engine has at first. -/
theorem Engine.submit_plugins (e : Engine) (plugins : Plugins) (c : Component) (text : String) :
    ({ e with plugins }).submit c text = e.submit c text := rfl

namespace EngineParts

/-- All components are proposed the same reviewers. -/
theorem keyed_reviewers (parts : EngineParts) :
    parts.engine.plugins.reviewers.KeyedBy fun i => i.componentType := by
  intro a b _
  show (Plugins.reviewerRegistry parts.settings parts.reviewers).candidates a
    = (Plugins.reviewerRegistry parts.settings parts.reviewers).candidates b
  cases h : parts.settings.reviewer with
  | none => simp [Plugins.reviewerRegistry, Registry.candidates, Mapper.fixed, h]
  | some name => simp [Plugins.reviewerRegistry, Registry.candidates, Mapper.fixed, h]

/-- An engine that has just been built has looked nothing up. -/
theorem offshoot_start (parts : EngineParts) :
    Plugins.Offshoot parts.engine.plugins parts.engine.plugins :=
  ⟨Registry.offshoot_self rfl, Registry.offshoot_self rfl⟩

/-- Nor has one that is built again, with the overrides in another order. For the registries of
strategies it is the same engine, as long as the order makes no difference to look-ups. -/
theorem offshoot_inOrder {parts : EngineParts} {os : parts.settings.strategies.Order}
    (ot : parts.settings.transformers.Order)
    (hos : ∀ key, os.lookup? key = parts.strategyOrder.lookup? key) :
    Plugins.Offshoot parts.engine.plugins (parts.inOrder os ot).engine.plugins := by
  have hlookup : os.lookup? = parts.strategyOrder.lookup? := funext hos
  have hstrategies : (parts.inOrder os ot).engine.plugins.strategies
      = parts.engine.plugins.strategies := by
    show Plugins.strategyRegistry parts.settings parts.strategies parts.strategyMappers os
      = Plugins.strategyRegistry parts.settings parts.strategies parts.strategyMappers
        parts.strategyOrder
    rw [Plugins.strategyRegistry, Plugins.strategyRegistry, hlookup]
  refine ⟨?_, parts.offshoot_start.reviewers⟩
  rw [hstrategies]
  exact parts.offshoot_start.strategies

/-- Parts whose plug-ins depend, as far as a component goes, on nothing that other calls change:
no hooks, the standard recorder, and factories of strategies and reviewers that do not look at
what was made before. Strategies and the extractor are handed the whole request; of that they
read the page and the groups of the component only. -/
structure HistoryFree (parts : EngineParts) (clientId : String) : Prop where
  hooks : parts.hooks = []
  recorders : parts.recorders = [.standard]
  strategies : parts.strategies.Steady
  reviewers : parts.reviewers.Steady
  confined : parts.strategies.Offers (Strategy.IsConfined clientId)
  extractor : parts.extractor.IsConfined clientId

namespace HistoryFree

variable {parts : EngineParts} {clientId : String}

theorem unhooked (h : parts.HistoryFree clientId) : parts.engine.Unhooked :=
  ⟨h.hooks, h.recorders⟩

theorem steady (h : parts.HistoryFree clientId) : parts.engine.plugins.Steady where
  strategies := Registry.steady_of_catalog h.strategies
  reviewers := Registry.steady_of_catalog h.reviewers
  keyed := parts.keyed_reviewers

theorem engine_confined (h : parts.HistoryFree clientId) :
    parts.engine.Confined parts.engine.plugins clientId :=
  ⟨h.confined, h.extractor⟩

end HistoryFree

end EngineParts

/-- Outcomes do not depend on the history of the engine. Take any calls for other requests,
and calls for the request at hand that are not for the component. They leave the page and
the groups of the component alone. Afterwards its submission has the outcome that it has on
an engine that has just been built, for any request with the same page and the same groups
of the component, and adds the same messages. The engine may be built again with its overrides
in another order, as long as that order leads to the same names. So it does not matter either
which of two components with different client ids is submitted first. -/
theorem submit_ignores_history {parts : EngineParts} {c : Component}
    (h : parts.HistoryFree c.clientId) {history : List Event}
    (havoids : ∀ event ∈ history, event.Avoids c.clientId) (first : Request) (text : String) :
    let e := parts.engine
    let s := Event.runAll e history (Session.start e first)
    s.request.Offers c.clientId first.page (first.ledger.sets (first.owner c.clientId)) ∧
    (∀ (os : parts.settings.strategies.Order) (ot : parts.settings.transformers.Order),
      (∀ key, os.lookup? key = parts.strategyOrder.lookup? key) → ∀ fresh : Request,
      fresh.Offers c.clientId s.request.page (s.request.ledger.sets (s.request.owner c.clientId)) →
      let rebuilt := (parts.inOrder os ot).engine
      (e.submit c text s).1 = (rebuilt.submit c text (Session.start rebuilt fresh)).1 ∧
      ∃ added : List QueuedMessage,
        (e.submit c text s).2.request.messages = s.request.messages ++ added ∧
        (rebuilt.submit c text (Session.start rebuilt fresh)).2.request.messages
          = fresh.messages ++ added) ∧
    ∀ (other : Component) (otherText : String), other.clientId ≠ c.clientId →
      parts.HistoryFree other.clientId →
      (e.submit c text (e.submit other otherText s).2).1 = (e.submit c text s).1 ∧
      (e.submit other otherText (e.submit c text s).2).1 = (e.submit other otherText s).1 := by
  intro e s
  have hsteady := h.steady
  have hs : s.Has (Plugins.Offshoot parts.engine.plugins)
      (Request.Offers c.clientId first.page (first.ledger.sets (first.owner c.clientId))) :=
    Event.keeps_runAll hsteady.stable h.unhooked havoids ⟨parts.offshoot_start, rfl, rfl⟩
  have hsilent : e.AddsNoMessages c := Engine.addsNoMessages_of_standard h.hooks h.recorders c
  refine ⟨hs.2, fun os ot hos fresh hfresh => ?_, fun other otherText hne hother => ⟨?_, ?_⟩⟩
  · intro rebuilt
    -- Built again, the engine differs in its registries only, and those find the same.
    have hrebuilt : ∀ t, rebuilt.submit c text t = e.submit c text t := fun t =>
      congrFun (Engine.submit_plugins e rebuilt.plugins c text) t
    have hsame : (e.submit c text s).1 = (e.submit c text (Session.start rebuilt fresh)).1 :=
      outcome_submit_congr hsteady h.unhooked h.engine_confined ⟨hs.1, rfl, rfl⟩
        ⟨EngineParts.offshoot_inOrder ot hos, hfresh⟩ text
    rw [hrebuilt]
    -- The messages are those of the outcome, so one outcome adds one list of messages.
    refine ⟨hsame, (e.submit c text s).1.queued c.clientId, ?_, ?_⟩
    · exact Engine.messages_submit hsilent text s
    · rw [hsame]
      exact Engine.messages_submit hsilent text (Session.start rebuilt fresh)
  · exact outcome_submit_of_other hsteady h.unhooked hne h.engine_confined hs.1 text otherText
  · exact outcome_submit_of_other hsteady h.unhooked hne.symm hother.engine_confined hs.1 otherText
      text

/-- An engine for one type, whose name must not be null. Its overrides are two spellings of one
key, with one and the same name. -/
def nameParts : EngineParts where
  settings :=
    { strategies := Dict.ofList
        [("EXTVAL.PROPERTY.LENGTH", Strategy.requiredName),
          ("extval.property.length", Strategy.requiredName)] }
  types := .ofTypes
    [{ name := "Person", properties :=
        [(PropertyDecl.new "name").onField (.constraint { rule := .notNull })] }]

/-- A field for a property of a person. -/
def nameField (clientId property : String) : Component where
  clientId := clientId
  valueBinding := some ("#\x7bperson." ++ property ++ "\x7d")

/-- A field is submitted in another request, then another field and the queue in this one. The
field has the outcome that it has in a request of its own, on an engine that walks through its
overrides the other way round. -/
theorem submit_ignores_history_name :
    let e := nameParts.engine
    let reversed : Overrides.Order nameParts.settings.strategies :=
      ⟨nameParts.settings.strategies.pairs.reverse, List.reverse_perm _⟩
    let rebuilt := (nameParts.inOrder reversed (.byKey _)).engine
    let field := nameField "form:name" "name"
    let request := Request.new "/edit"
      (Dict.ofList [("person", .object (Record.ofType "Person"))])
    let history := [Event.elsewhere (.new "/list" ∅) (.submit field "Ada"),
      .here (.submit (nameField "form:nick" "nick") "A"), .here .drain]
    (∀ event ∈ history, event.Avoids field.clientId) ∧
    reversed.pairs ≠ nameParts.strategyOrder.pairs ∧
    (e.submit field "" (Event.runAll e history (Session.start e request))).1
      = (rebuilt.submit field "" (Session.start rebuilt request)).1 ∧
    (e.submit field "" (Session.start e request)).1.isValid = false := by
  intro e reversed rebuilt field request history
  have hparts : nameParts.HistoryFree field.clientId :=
    ⟨rfl, rfl, Catalog.steady_ofList _, Catalog.steady_ofList _,
      Strategy.offers_catalog fun _ hs => Strategy.isConfined_of_standard hs _,
      Extractor.isConfined_ofPage _ _⟩
  have havoids : ∀ event ∈ history, event.Avoids field.clientId := by decide
  have hnames : ∀ a ∈ nameParts.settings.strategies.pairs,
      ∀ b ∈ nameParts.settings.strategies.pairs, a.2 = b.2 := by decide +kernel
  have hreversed : ∀ key, reversed.lookup? key = nameParts.strategyOrder.lookup? key := by
    intro key
    exact Overrides.lookup?_congr _ _ (.inr fun a ha b hb _ _ => hnames a ha b hb)
  obtain ⟨hoffers, hfresh, _⟩ := submit_ignores_history hparts havoids request ""
  have hsame : request.Offers field.clientId
      (Event.runAll e history (Session.start e request)).request.page
      ((Event.runAll e history (Session.start e request)).request.ledger.sets
        ((Event.runAll e history (Session.start e request)).request.owner field.clientId)) :=
    ⟨hoffers.page.symm, hoffers.sets.symm⟩
  exact ⟨havoids, by decide +kernel, (hfresh reversed (.byKey _) hreversed request hsame).1,
    by decide +kernel⟩

/-! ### A strategy that reads what was submitted before -/

/-- A name is refused unless a nick has been submitted in the same request. -/
def nickFirst : Strategy where
  name := "acme.NickFirstStrategy"
  check := .own fun _ r _ _ =>
    .ok (if (r.recorded.get? "person.nick").isSome then [] else [.of "nick" "Nick first" []])

/-- An engine with that strategy for lengths. -/
def nickParts : EngineParts where
  settings :=
    { strategies := Dict.ofList [("extval.property.Length", nickFirst.name)] }
  types := .ofTypes
    [{ name := "Person", properties :=
        [(PropertyDecl.new "name").onField (.length {}), PropertyDecl.new "nick"] }]
  strategies := Strategy.catalog.register nickFirst.name (.always nickFirst)

/-- There are no hooks and no recorders but the standard one, and all factories are steady. The
call before is for another component, and leaves the page and the groups of this one alone. The
strategy depends on nothing but its arguments, and one of these is the request. So the same
submission is accepted after that call, and refused on an engine that has just been built. -/
theorem submit_heeds_recorded :
    let e := nickParts.engine
    let field := nameField "form:name" "name"
    let request := Request.new "/edit"
      (Dict.ofList [("person", .object (Record.ofType "Person"))])
    let history := [Event.here (.submit (nameField "form:nick" "nick") "A")]
    let s := Event.runAll e history (Session.start e request)
    (nickParts.hooks = [] ∧ nickParts.recorders = [.standard] ∧ nickParts.strategies.Steady ∧
      nickParts.reviewers.Steady) ∧
    (∀ event ∈ history, event.Avoids field.clientId) ∧
    s.request.Offers field.clientId request.page (request.ledger.sets
      (request.owner field.clientId)) ∧
    (e.submit field "Ada" s).1.isValid = true ∧
    (e.submit field "Ada" (Session.start e request)).1.isValid = false ∧
    (e.submit field "Ada" s).1 ≠ (e.submit field "Ada" (Session.start e request)).1 := by
  intro e field request history s
  have hstandard : Strategy.catalog.Steady := Catalog.steady_ofList _
  have haccepted : (e.submit field "Ada" s).1.isValid = true := by decide +kernel
  have hrefused : (e.submit field "Ada" (Session.start e request)).1.isValid = false := by
    decide +kernel
  have havoids : ∀ event ∈ history, event.Avoids field.clientId := by decide
  have hsteady : nickParts.strategies.Steady :=
    hstandard.register nickFirst.name (Factory.steady_always nickFirst)
  have hunhooked : e.Unhooked := ⟨rfl, rfl⟩
  have hkept : s.Has (fun _ => True) (Request.Offers field.clientId request.page
      (request.ledger.sets (request.owner field.clientId))) :=
    Event.keeps_runAll Plugins.stable_true hunhooked havoids ⟨trivial, rfl, rfl⟩
  refine ⟨⟨rfl, rfl, hsteady, Catalog.steady_ofList _⟩, havoids, hkept.2, haccepted, hrefused, ?_⟩
  intro hsame
  rw [hsame, hrefused] at haccepted
  exact absurd haccepted (by decide)

end FieldGuard
