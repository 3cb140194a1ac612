import FieldGuard.Proofs.Parts
import FieldGuard.Proofs.QueueRuns

/-!
# `FieldGuard.Proofs.Restrictions`: groups that are switched off while a demand waits

A demand waits in the queue with the groups that it is to be validated in. Any of them may be
switched off for its component before the queue is drained. The rule is that a group that is
switched off by then does not count, and that a demand without groups that count is passed over
(`Engine.drainUnrestricted`). Draining takes the groups as they were queued, and queueing looks
only at what the model validations of its own scan restrict. So it makes no difference when a group
is switched off, as it makes no difference at all.

* `ModelDemand.unrestricted_eq_iff`, `Engine.workOf_unrestricted_iff`: the demands for which the
  rule changes nothing;
* `Engine.queues_run`: what a call does to the page and the queue depends on these alone;
* `SwitchCall.queues_runAll`: switching groups on and off between the calls changes nothing there;
* `drain_restricts_iff`: when draining keeps the rule, after any calls;
* `drain_validates_restricted`: a group that is switched off and counts.
-/

set_option autoImplicit false

namespace FieldGuard

/-- The groups that are switched off for a component in the view of the request. -/
def Request.restricted (r : Request) (clientId : String) : List String :=
  (r.ledger.sets (r.owner clientId)).restricted

namespace ModelDemand

/-- The demand without the groups that are switched off for its component. -/
def unrestricted (r : Request) (d : ModelDemand) : ModelDemand :=
  { d with
    groups := d.groups.filter fun group => !(r.restricted d.identity.clientId).contains group }

theorem unrestricted_eq_iff {r : Request} {d : ModelDemand} :
    d.unrestricted r = d ↔ ∀ group ∈ d.groups, group ∉ r.restricted d.identity.clientId := by
  have hgroups : d.unrestricted r = d ↔ (d.unrestricted r).groups = d.groups := by
    refine ⟨congrArg groups, fun h => ?_⟩
    cases d
    exact congrArg (ModelDemand.mk · _ _ _ _) h
  rw [hgroups, unrestricted, List.filter_eq_self]
  simp

end ModelDemand

namespace Engine

/-! ### What a demand asks for -/

/-- The targets of one demand, each with the demand. -/
def workOf (env : Environment) (page : Page) (d : ModelDemand) : List (ModelDemand × Bean) :=
  if d.groups = [] then [] else (ModelTargets.ofDemand env page d).map fun target => (d, target)

theorem work_eq_flatMap (env : Environment) (page : Page) (ds : List ModelDemand) :
    work env page ds = ds.flatMap (workOf env page) := by
  induction ds with
  | nil => rfl
  | cons d rest ih =>
    rw [List.flatMap_cons, ← ih, work, work, workOf]
    by_cases h : d.groups = [] <;> simp [h]

section

variable {env : Environment} {page : Page} {r : Request} {d : ModelDemand}

theorem workOf_of_ne_nil (h : d.groups ≠ []) :
    workOf env page d = (ModelTargets.ofDemand env page d).map fun target => (d, target) :=
  if_neg h

/-- The groups of a demand say nothing about its targets. -/
theorem ofDemand_unrestricted :
    ModelTargets.ofDemand env page (d.unrestricted r) = ModelTargets.ofDemand env page d :=
  rfl

theorem length_workOf_unrestricted_le :
    (workOf env page (d.unrestricted r)).length ≤ (workOf env page d).length := by
  -- With no group left the demand asks for nothing, and otherwise for as much as before.
  by_cases hleft : (d.unrestricted r).groups = []
  · rw [workOf, if_pos hleft]
    exact Nat.zero_le _
  · have hgroups : d.groups ≠ [] := by
      intro hnil
      exact hleft (by simp [ModelDemand.unrestricted, hnil])
    have hlength : (workOf env page (d.unrestricted r)).length = (workOf env page d).length := by
      rw [workOf_of_ne_nil hleft, workOf_of_ne_nil hgroups, List.length_map, List.length_map,
        ofDemand_unrestricted]
    exact Nat.le_of_eq hlength

/-- A demand asks for the same without the groups that are switched off just when it has none of
these, or no target at all. -/
theorem workOf_unrestricted_iff : workOf env page (d.unrestricted r) = workOf env page d ↔
    (ModelTargets.ofDemand env page d ≠ [] →
      ∀ group ∈ d.groups, group ∉ r.restricted d.identity.clientId) := by
  rw [← ModelDemand.unrestricted_eq_iff]
  constructor
  · intro hsame htargets
    by_cases hgroups : d.groups = []
    · simp [ModelDemand.unrestricted_eq_iff, hgroups]
    · -- The demand stands beside each of its targets, so with one target it can be told.
      obtain ⟨target, others, hcons⟩ := List.exists_cons_of_ne_nil htargets
      rw [workOf, ofDemand_unrestricted, workOf_of_ne_nil hgroups, hcons] at hsame
      split at hsame
      · cases hsame
      · exact congrArg Prod.fst (List.cons.inj hsame).1
  · intro hunrestricted
    by_cases htargets : ModelTargets.ofDemand env page d = []
    · simp [workOf, ofDemand_unrestricted, htargets]
    · rw [hunrestricted htargets]

theorem work_unrestricted_iff (ds : List ModelDemand) :
    work env page (ds.map (.unrestricted r)) = work env page ds ↔
      ∀ d ∈ ds, ModelTargets.ofDemand env page d ≠ [] →
        ∀ group ∈ d.groups, group ∉ r.restricted d.identity.clientId := by
  rw [work_eq_flatMap, work_eq_flatMap, List.flatMap_map,
    flatMap_eq_flatMap_iff_of_length_le fun d _ => length_workOf_unrestricted_le]
  simp only [workOf_unrestricted_iff]

end

/-! ### The rule -/

/-- Draining by the rule: what waits for the view is taken from the queue and validated without
the groups that are switched off by then. -/
def drainUnrestricted (e : Engine) : StateM Session (List ModelFailure) := do
  let waiting ← Session.run fun r =>
    ((r.queue.demands r.page.view).map (.unrestricted r),
      { r with queue := r.queue.clear r.page.view })
  e.validateDemands waiting

theorem drainUnrestricted_eq (e : Engine) (s : Session) :
    e.drainUnrestricted s
      = e.validateWork
          (work e.env s.request.page
            ((s.request.queue.demands s.request.page.view).map (.unrestricted s.request)))
          { s with
            request := { s.request with queue := s.request.queue.clear s.request.page.view } } := by
  rw [drainUnrestricted, run_bind]
  exact validateDemands_eq _ _

/-! ### Calls -/

/-- Of a request, only its page decides whether the hooks agree to a validation. -/
def AgreesByPage (e : Engine) : Prop :=
  ∀ c value info (r r' : Request), r.page = r'.page →
    (Hook.runBefore c value info e.hooks r).1 = (Hook.runBefore c value info e.hooks r').1

theorem agreesByPage_of_unhooked {e : Engine} (h : e.hooks = []) : e.AgreesByPage := by
  intro c value info r r' _
  rw [h]
  rfl

/-- Nor does anything but its page decide what is known about the property of a component. -/
def ExtractsByPage (e : Engine) : Prop :=
  ∀ c (r r' : Request), r.page = r'.page → e.bound? r c = e.bound? r' c

theorem extractsByPage_of_standard {e : Engine} (h : e.extractor = .standard) :
    e.ExtractsByPage :=
  fun c _ _ hpage => bound?_of_page h hpage c

variable {e : Engine}

/-- The scan of a submission meets the same demands on the same page. -/
theorem met_congr (h : e.LeavesQueue) (hagrees : e.AgreesByPage) (hextracts : e.ExtractsByPage)
    (c : Component) (text : String) {s s' : Session} (hpage : s.request.page = s'.request.page) :
    e.met c text s = e.met c text s' := by
  cases heditable : c.editable with
  | false => simp [met, heditable]
  | true =>
    cases hconvert : c.convert text with
    | error fault => simp [met, heditable, hconvert]
    | ok value =>
      have hrecorded :
          (e.recorded c value s.request).page = (e.recorded c value s'.request).page := by
        rw [(h.recorded c value s.request).page, (h.recorded c value s'.request).page, hpage]
      have hsame := hextracts c _ _ hrecorded
      cases hbound : e.bound? (e.recorded c value s.request) c with
      | none =>
        have hbound' : e.bound? (e.recorded c value s'.request) c = none := hsame ▸ hbound
        simp [met, heditable, hconvert, hbound, hbound']
      | some b =>
        have hbound' : e.bound? (e.recorded c value s'.request) c = some b := hsame ▸ hbound
        rw [met_of_bound h heditable hconvert hbound, met_of_bound h heditable hconvert hbound',
          hagrees c _ _ _ _ hrecorded, hpage]

/-- What a call does to the page and the queue depends on these alone, and not on the groups. -/
theorem queues_run (h : e.LeavesQueue) (hagrees : e.AgreesByPage) (hextracts : e.ExtractsByPage)
    (call : Call) {s s' : Session}
    (hsame : s.request.Queues s'.request.page s'.request.queue) :
    (call.run e s).request.Queues (call.run e s').request.page (call.run e s').request.queue := by
  cases call with
  | init c =>
    have hleft := queues_init (e := e) c s
    have hright := queues_init (e := e) c s'
    exact ⟨hleft.page.trans (hsame.page.trans hright.page.symm),
      hleft.queue.trans (hsame.queue.trans hright.queue.symm)⟩
  | submit c text =>
    have hleft := queues_submit h c text s
    have hright := queues_submit h c text s'
    rw [met_congr h hagrees hextracts c text hsame.page, hsame.page, hsame.queue] at hleft
    exact ⟨hleft.page.trans hright.page.symm, hleft.queue.trans hright.queue.symm⟩
  | drain =>
    have hleft := demands_drain (e := e) s
    have hright := demands_drain (e := e) s'
    rw [hsame.page, hsame.queue] at hleft
    exact ⟨hleft.1.trans hright.1.symm, hleft.2.trans hright.2.symm⟩

end Engine

/-- A call of an engine, or a group that the application switches on or off for a component in a
view. -/
inductive SwitchCall where
  | activate (owner : Owner) (group : String)
  | restrict (owner : Owner) (group : String)
  | engine (c : Call)

namespace SwitchCall

variable (e : Engine)

/-- The session after a call. -/
def run : SwitchCall → Session → Session
  | .activate owner group, s =>
    { s with request := { s.request with ledger := s.request.ledger.activate owner group } }
  | .restrict owner group, s =>
    { s with request := { s.request with ledger := s.request.ledger.restrict owner group } }
  | .engine c, s => c.run e s

/-- The session after calls, one after the other. -/
def runAll : List SwitchCall → Session → Session
  | [], s => s
  | call :: rest, s => runAll rest (call.run e s)

/-- Whether the call is one of the engine. -/
def isEngine : SwitchCall → Bool
  | .engine _ => true
  | _ => false

variable {e}

/-- Without the calls that switch groups, others have the same page and the same queue. -/
theorem queues_runAll (h : e.LeavesQueue) (hagrees : e.AgreesByPage)
    (hextracts : e.ExtractsByPage) (calls : List SwitchCall) {s s' : Session}
    (hsame : s.request.Queues s'.request.page s'.request.queue) :
    (runAll e calls s).request.Queues (runAll e (calls.filter isEngine) s').request.page
      (runAll e (calls.filter isEngine) s').request.queue := by
  -- The two runs keep the page and the queue in common: switching a group touches neither, and a
  -- call of the engine does the same to both.
  induction calls generalizing s s' with
  | nil => exact hsame
  | cons call rest ih =>
    cases call with
    | activate owner group =>
      have hleft : (run e (.activate owner group) s).request.Queues s'.request.page
          s'.request.queue := ⟨hsame.page, hsame.queue⟩
      exact ih hleft
    | restrict owner group =>
      have hleft : (run e (.restrict owner group) s).request.Queues s'.request.page
          s'.request.queue := ⟨hsame.page, hsame.queue⟩
      exact ih hleft
    | engine c => exact ih (Engine.queues_run h hagrees hextracts c hsame)

end SwitchCall

open SwitchCall

/-- When draining keeps the rule. Take any calls that render and submit components, drain the queue
and switch groups on and off.

* Draining validates what waits for the view in the groups in which it was queued. By the rule it
  is validated without those that are switched off by then.
* Both validate the same objects in the same groups just when no demand that has a target waits
  with a group that is switched off for its component.
* On an engine whose recorders and hooks leave the page and the queue alone, a submission queues
  demands in the groups of their controllers, without those that the model validations found by the
  same scan restrict.
* If hooks and extractor also go by the page alone, the same waits as without the calls that switch
  groups, and draining validates the same. -/
theorem drain_restricts_iff (e : Engine) (calls : List SwitchCall) (s : Session) :
    let t := runAll e calls s
    let r := t.request
    let waiting := t.waiting r.page.view
    let asQueued := Engine.work e.env r.page waiting
    let unrestricted := Engine.work e.env r.page (waiting.map (.unrestricted r))
    let taken : Session := { t with request := { r with queue := r.queue.clear r.page.view } }
    e.drain t = e.validateWork asQueued taken ∧
    e.drainUnrestricted t = e.validateWork unrestricted taken ∧
    (unrestricted = asQueued ↔
      ∀ d ∈ waiting, ModelTargets.ofDemand e.env r.page d ≠ [] →
        ∀ group ∈ d.groups, group ∉ r.restricted d.identity.clientId) ∧
    (e.LeavesQueue →
      (∀ c text, ∀ d ∈ e.met c text t, ∃ q b, q.page = r.page ∧ e.bound? q c = some b ∧
        d.groups = d.controller.useGroups.filter fun group =>
          !(Groups.leftOut (Groups.scan e.env r.page b.details)).contains group) ∧
      (e.AgreesByPage → e.ExtractsByPage →
        let unswitched := (runAll e (calls.filter isEngine) s).request
        r.page = unswitched.page ∧ r.queue = unswitched.queue ∧
        asQueued = Engine.work e.env unswitched.page
          (unswitched.queue.demands unswitched.page.view))) := by
  intro t r waiting asQueued unrestricted taken
  refine ⟨Engine.drain_eq t, Engine.drainUnrestricted_eq e t, Engine.work_unrestricted_iff waiting,
    fun hleaves => ⟨fun c text d hd => ?_, fun hagrees hextracts => ?_⟩⟩
  · obtain ⟨q, b, hpage, hbound, hdemand⟩ := Engine.mem_met hleaves hd
    obtain ⟨l, controller, -, -, rfl, -⟩ := Groups.mem_demands.1 hdemand
    exact ⟨q, b, hpage, hbound, rfl⟩
  · intro unswitched
    have hqueues : r.Queues unswitched.page unswitched.queue :=
      queues_runAll hleaves hagrees hextracts calls ⟨rfl, rfl⟩
    refine ⟨hqueues.page, hqueues.queue, ?_⟩
    show Engine.work e.env r.page (r.queue.demands r.page.view) = _
    rw [hqueues.page, hqueues.queue]

/-! ### A draft that is not to be validated -/

/-- An account that asks to be validated as a draft, and then needs a password. -/
def draftParts : EngineParts where
  types := .ofTypes
    [{ name := "Account"
       annotations := [.controller {
         useGroups := ["Draft"], modelValidation := { isActive := true } }]
       properties := [.new "email", (PropertyDecl.new "password").onField
         (.constraint { rule := .notNull, groups := ["Draft"] })] }]

/-- A page with one account. -/
def draftPage : Request :=
  .new "/edit.xhtml" (Dict.ofList [("account", .object ⟨1, "Account", []⟩)])

/-- A field for the e-mail of the account. -/
def draftField : Component where
  clientId := "form:email"
  valueBinding := some "#\x7baccount.email\x7d"

/-- The group of the draft is switched off for the field, after the submission or before it. The
account is validated as a draft all the same. -/
theorem drain_validates_restricted :
    let e := draftParts.engine
    let s := Session.start e draftPage
    let owner : Owner := ⟨"/edit.xhtml", "form:email"⟩
    let after := runAll e [.engine (.submit draftField "a@b.at"), .restrict owner "Draft"] s
    let before := runAll e [.restrict owner "Draft", .engine (.submit draftField "a@b.at")] s
    after.request.restricted "form:email" = ["Draft"] ∧
    (after.waiting "/edit.xhtml").map (fun d => (d.identity.clientId, d.groups))
      = [("form:email", ["Draft"])] ∧
    (e.drainUnrestricted after).1.map (·.targetType) = [] ∧
    (e.drain after).1.map (·.targetType) = ["Account"] ∧
    (e.drain after).1 ≠ (e.drainUnrestricted after).1 ∧
    (e.drain before).1.map (·.targetType) = ["Account"] := by
  intro e s owner after before
  have hrule : (e.drainUnrestricted after).1.map (·.targetType) = [] := by decide +kernel
  have hdrained : (e.drain after).1.map (·.targetType) = ["Account"] := by decide +kernel
  refine ⟨by decide +kernel, by decide +kernel, hrule, hdrained, fun heq => ?_, by decide +kernel⟩
  rw [heq, hrule] at hdrained
  cases hdrained

/-- Switched off for another field, the group counts by the rule, and draining keeps it. -/
theorem drain_restricts_iff_other_field :
    let e := draftParts.engine
    let s := Session.start e draftPage
    let calls := [.engine (.submit draftField "a@b.at"),
      .restrict ⟨"/edit.xhtml", "form:password"⟩ "Draft"]
    let t := runAll e calls s
    t.request.restricted "form:password" = ["Draft"] ∧
    e.drain t = e.drainUnrestricted t ∧
    t.request.queue = (e.submit draftField "a@b.at" s).2.request.queue ∧
    (e.drain t).1.map (·.targetType) = ["Account"] := by
  intro e s calls t
  obtain ⟨hdrain, hrule, hiff, hleaves⟩ := drain_restricts_iff e calls s
  have hclients : ∀ d ∈ t.waiting t.request.page.view,
      t.request.restricted d.identity.clientId = [] := by decide +kernel
  have hsame := hiff.2 fun d hd _ group _ => by
    show group ∉ t.request.restricted d.identity.clientId
    rw [hclients d hd]
    exact List.not_mem_nil
  have hqueue := ((hleaves (Engine.leavesQueue_of_unhooked rfl rfl)).2
    (Engine.agreesByPage_of_unhooked rfl) (Engine.extractsByPage_of_standard rfl)).2.1
  exact ⟨by decide +kernel, by rw [hdrain, hrule, hsame], hqueue, by decide +kernel⟩

end FieldGuard
