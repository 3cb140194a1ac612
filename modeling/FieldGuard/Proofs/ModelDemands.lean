import FieldGuard.Proofs.Objects
import FieldGuard.Proofs.Submit
import Mathlib.Data.List.Nodup

/-!
# `FieldGuard.Proofs.ModelDemands`: which model validations survive the queue

The group scan of a submission demands model validations, and the queue keeps the first
demand of each kind: of those with one source, one list of groups and one controller. The
kind does not say what the default target stands for. That depends on the component, so a
demand that is not kept may have asked for another object than the one that is.

* `ModelQueue.demands_addAll`: the queue keeps the first demand of each kind;
* `Engine.queues_submit`, `Engine.demands_submitAll`: what a submission adds to the queue,
  and what a whole run of submissions does;
* `Engine.drain_eq`: draining validates the targets of the kept demands, one by one;
* `drain_validates_demands_iff`: no demand is lost just when every default target that is
  asked for is validated on account of some demand that is kept;
* `drain_loses_address`: two fields of one form for which this fails.

Sources are compared by identity. `Engine.ObjectsOn` says that the objects of the page are
told apart by their identities, so demands of one kind have one source, and with one
controller they have the same targets, unless these are the default one. Recorders and hooks
come from an application and could empty the queue; `Engine.LeavesQueue` says that they do
not.
-/

set_option autoImplicit false

namespace FieldGuard

/-! ### The queue -/

namespace ModelDemand

theorem sameAs_iff {a b : ModelDemand} :
    a.sameAs b = true ↔
      a.source.identity = b.source.identity ∧ a.groups = b.groups ∧ a.controller = b.controller := by
  simp [sameAs, and_assoc]

theorem sameAs_refl (d : ModelDemand) : d.sameAs d = true :=
  sameAs_iff.2 ⟨rfl, rfl, rfl⟩

end ModelDemand

namespace ModelQueue

/-- Adds demands to those that are kept, unless one of their kind is kept already. -/
def keepFirst (kept : List ModelDemand) : List ModelDemand → List ModelDemand
  | [] => kept
  | d :: rest =>
    keepFirst (if kept.any fun waiting => waiting.sameAs d then kept else kept ++ [d]) rest

/-- The queue keeps the first demand of each kind. -/
theorem demands_addAll (q : ModelQueue) (view : String) (ds : List ModelDemand) :
    (q.addAll view ds).demands view = keepFirst (q.demands view) ds := by
  induction ds generalizing q with
  | nil => rfl
  | cons d rest ih =>
    have hstep : (q.add view d).demands view
        = if (q.demands view).any fun waiting => waiting.sameAs d then q.demands view
          else q.demands view ++ [d] := by
      rw [demands_add, isWaiting]
      cases (q.demands view).any fun waiting => waiting.sameAs d <;> simp
    rw [keepFirst, ← hstep]
    exact ih (q.add view d)

theorem keepFirst_append (kept xs ys : List ModelDemand) :
    keepFirst kept (xs ++ ys) = keepFirst (keepFirst kept xs) ys := by
  induction xs generalizing kept with
  | nil => rfl
  | cons d rest ih => exact ih _

/-- What is kept stays kept. -/
theorem subset_keepFirst (kept ds : List ModelDemand) : kept ⊆ keepFirst kept ds := by
  induction ds generalizing kept with
  | nil => exact fun _ h => h
  | cons d rest ih =>
    intro w hw
    refine ih _ ?_
    split
    · exact hw
    · exact List.mem_append_left _ hw

/-- Only what was kept or has been added is kept. -/
theorem mem_of_mem_keepFirst {kept ds : List ModelDemand} {w : ModelDemand}
    (h : w ∈ keepFirst kept ds) : w ∈ kept ∨ w ∈ ds := by
  induction ds generalizing kept with
  | nil => exact .inl h
  | cons d rest ih =>
    rcases ih h with hkept | hrest
    · split at hkept
      · exact .inl hkept
      · rcases List.mem_append.1 hkept with hkept | hd
        · exact .inl hkept
        · exact .inr (List.mem_singleton.1 hd ▸ List.mem_cons_self)
    · exact .inr (List.mem_cons_of_mem _ hrest)

/-- For every demand that has been added one of its kind is kept. -/
theorem exists_sameAs_of_mem (kept : List ModelDemand) {ds : List ModelDemand} {d : ModelDemand}
    (h : d ∈ ds) : ∃ w ∈ keepFirst kept ds, w.sameAs d = true := by
  induction ds generalizing kept with
  | nil => cases h
  | cons first rest ih =>
    rcases List.mem_cons.1 h with rfl | h
    -- If one of its kind waits already, that one is kept, else the demand itself.
    · by_cases hwaiting : (kept.any fun waiting => waiting.sameAs d) = true
      · obtain ⟨w, hw, hsame⟩ := List.any_eq_true.1 hwaiting
        exact ⟨w, subset_keepFirst kept _ hw, hsame⟩
      · refine ⟨d, ?_, d.sameAs_refl⟩
        rw [keepFirst, if_neg hwaiting]
        exact subset_keepFirst _ rest (by simp)
    · exact ih _ h

end ModelQueue

/-! ### Demands -/

namespace Groups

/-- The controllers of a scan are permitted ones for the view, at one of the places. -/
theorem mem_scan {env : Environment} {page : Page} {d : Details} {l : Location}
    {c : GroupController} :
    (l, c) ∈ scan env page d ↔
      l ∈ places env page d ∧ c ∈ l.controllers env.types page.view ∧
        isPermitted env page c = true := by
  simp [scan, List.mem_flatMap]

/-- A controller that is met demands a model validation if it asks for one and has groups
left. -/
theorem mem_demands {env : Environment} {page : Page} {i : Identity} {d : Details}
    {found : List (Location × GroupController)} {demand : ModelDemand} :
    demand ∈ demands env page i d found ↔
      ∃ l c, (l, c) ∈ found ∧ c.modelValidation.isActive = true ∧
        demand =
          { groups := c.useGroups.filter fun group => !(leftOut found).contains group
            controller := c
            source := l.object
            defaultTarget := (d.base.or (root? env page d)).getD l.object
            identity := i } ∧
        demand.groups ≠ [] := by
  simp only [demands, List.mem_filter, List.mem_map, asksForModel, Prod.exists]
  constructor
  · rintro ⟨⟨l, c, ⟨hfound, hactive⟩, rfl⟩, hgroups⟩
    exact ⟨l, c, hfound, hactive, rfl, by simpa using hgroups⟩
  · rintro ⟨l, c, hfound, hactive, rfl, hgroups⟩
    exact ⟨⟨l, c, ⟨hfound, hactive⟩, rfl⟩, by simpa using hgroups⟩

theorem mem_of_mem_distinct {seen ls : List Location} {l : Location} (h : l ∈ distinct seen ls) :
    l ∈ ls := by
  induction ls generalizing seen with
  | nil => simp [distinct] at h
  | cons first rest ih =>
    rw [distinct] at h
    split at h
    · exact List.mem_cons_of_mem _ (ih h)
    · rcases List.mem_cons.1 h with rfl | h
      · exact List.mem_cons_self
      · exact List.mem_cons_of_mem _ (ih h)

/-- The places of a property are those of its root object and of its owner. -/
theorem object_of_mem_places {env : Environment} {page : Page} {d : Details} {l : Location}
    (h : l ∈ places env page d) : root? env page d = some l.object ∨ d.base = some l.object := by
  rcases List.mem_append.1 (mem_of_mem_distinct h) with h | h
  · left
    unfold rootPlaces at h
    split at h
    · simp at h
    · next root hroot =>
      rw [hroot]
      rcases List.mem_cons.1 h with rfl | h
      · rfl
      · obtain ⟨first, -, rfl⟩ := Option.map_eq_some_iff.1 (Option.mem_toList.1 h)
        rfl
  · right
    unfold ownerPlaces at h
    split at h
    · simp at h
    · next owner hbase =>
      rw [hbase]
      rcases List.mem_cons.1 h with rfl | h
      · rfl
      · rw [List.mem_singleton.1 h]

end Groups

namespace ModelTargets

/-- The targets of a demand that asks for more than the default target depend on its source
and its controller only. -/
theorem ofDemand_congr {env : Environment} {page : Page} {d w : ModelDemand}
    (hsource : w.source = d.source) (hcontroller : w.controller = d.controller)
    (htargets : d.targets ≠ [defaultTarget]) : ofDemand env page w = ofDemand env page d := by
  have hsame : w.targets = d.targets := by rw [ModelDemand.targets, hcontroller]; rfl
  rw [ofDemand, ofDemand, hsame, hsource, if_neg htargets, if_neg htargets]

theorem ofDemand_of_default {env : Environment} {page : Page} {d : ModelDemand}
    (htargets : d.targets = [defaultTarget]) : ofDemand env page d = [d.defaultTarget] := by
  rw [ofDemand, if_pos htargets]

end ModelTargets

/-! ### Submissions -/

/-- The page and the queue of a request. -/
structure Request.Queues (page : Page) (queue : ModelQueue) (r : Request) : Prop where
  page : r.page = page
  queue : r.queue = queue

namespace Engine

/-- Recorders and hooks leave the page and the queue alone. -/
structure LeavesQueue (e : Engine) : Prop where
  record : ∀ c value r, (Recorder.recordAll e.recorders e.env c value r).Queues r.page r.queue
  before : ∀ c value info r, (Hook.runBefore c value info e.hooks r).2.Queues r.page r.queue
  after : ∀ c value info r, (Hook.runAfter c value info e.hooks r).Queues r.page r.queue

/-- The request that a value is validated on has the page and the queue of the submission. -/
theorem LeavesQueue.recorded {e : Engine} (h : e.LeavesQueue) (c : Component) (value : Value)
    (r : Request) : (e.recorded c value r).Queues r.page r.queue :=
  h.record c value ((r.setStage c.clientId .rawInput).setStage c.clientId .converted)

/-- The demands that the group scan of a submission meets. There is none without a
validation, and none in an engine that goes by group sequences. -/
def met (e : Engine) (c : Component) (text : String) (s : Session) : List ModelDemand :=
  if !c.editable then []
  else
    match c.convert text with
    | .error _ => []
    | .ok value =>
      match e.bound? (e.recorded c value s.request) c with
      | none => []
      | some b =>
        let (agreed, r) := Hook.runBefore c (interpreted e.env.settings value) b.info e.hooks
          (e.recorded c value s.request)
        if agreed && !e.env.settings.usesGroupSequences then
          Groups.demands e.env r.page c.identity b.details (Groups.scan e.env r.page b.details)
        else []

section

variable (e : Engine) (c : Component) (b : Bound) (value : Value) (s : Session)

/-- With the agreement of the hooks before it, the request is validated and then changed by
the hooks after it. -/
theorem request_of_agreed (h : (Hook.runBefore c value b.info e.hooks s.request).1 = true) :
    ∃ info stage, (e.validateHooked c b value s).2.request
      = (Hook.runAfter c value info e.hooks (e.validate c b value ⟨s.plugins,
          (Hook.runBefore c value b.info e.hooks s.request).2⟩).2.request).setStage
            c.clientId stage := by
  have hagreed : (Session.run (Hook.runBefore c value b.info e.hooks) s).1 = true := h
  rw [validateHooked, run_bind, hagreed]
  exact ⟨_, _, rfl⟩

/-- Without it the request is only changed by the hooks. -/
theorem request_of_disagreed (h : (Hook.runBefore c value b.info e.hooks s.request).1 = false) :
    ∃ info stage, (e.validateHooked c b value s).2.request
      = (Hook.runAfter c value info e.hooks
          (Hook.runBefore c value b.info e.hooks s.request).2).setStage c.clientId stage := by
  have hagreed : (Session.run (Hook.runBefore c value b.info e.hooks) s).1 = false := h
  rw [validateHooked, run_bind, hagreed]
  exact ⟨_, _, rfl⟩

/-- A validation adds what its scan demands to the queue. -/
theorem queues_validate :
    (e.validate c b value s).2.request.Queues s.request.page
      (Groups.queueAfter e.env c.identity b.details true s.request) := by
  have hreport := congrArg Prod.snd (validate_eq e c b value s)
  simp only at hreport
  rw [hreport, reportIn_snd, violations_snd, Groups.resolve_eq]
  exact ⟨rfl, rfl⟩

end

variable {e : Engine}

theorem queues_validateHooked (h : e.LeavesQueue) (c : Component) (b : Bound) (value : Value)
    (s : Session) :
    (e.validateHooked c b value s).2.request.Queues s.request.page
      (if (Hook.runBefore c value b.info e.hooks s.request).1 then
        Groups.queueAfter e.env c.identity b.details true
          (Hook.runBefore c value b.info e.hooks s.request).2
      else s.request.queue) := by
  have hbefore := h.before c value b.info s.request
  cases hagreed : (Hook.runBefore c value b.info e.hooks s.request).1 with
  | false =>
    obtain ⟨info, stage, hrequest⟩ := request_of_disagreed e c b value s hagreed
    have hafter := h.after c value info (Hook.runBefore c value b.info e.hooks s.request).2
    rw [hrequest]
    exact ⟨hafter.page.trans hbefore.page, hafter.queue.trans hbefore.queue⟩
  | true =>
    obtain ⟨info, stage, hrequest⟩ := request_of_agreed e c b value s hagreed
    have hvalidated := queues_validate e c b value
      ⟨s.plugins, (Hook.runBefore c value b.info e.hooks s.request).2⟩
    have hafter := h.after c value info (e.validate c b value
      ⟨s.plugins, (Hook.runBefore c value b.info e.hooks s.request).2⟩).2.request
    rw [hrequest]
    exact ⟨hafter.page.trans (hvalidated.page.trans hbefore.page),
      hafter.queue.trans hvalidated.queue⟩

/-- The scan of a validated component goes over the page of the request. -/
theorem met_of_bound (h : e.LeavesQueue) {c : Component} {text : String} {s : Session}
    (heditable : c.editable = true) {value : Value} (hconvert : c.convert text = .ok value)
    {b : Bound} (hbound : e.bound? (e.recorded c value s.request) c = some b) :
    e.met c text s
      = if (Hook.runBefore c (interpreted e.env.settings value) b.info e.hooks
          (e.recorded c value s.request)).1 && !e.env.settings.usesGroupSequences then
          Groups.demands e.env s.request.page c.identity b.details
            (Groups.scan e.env s.request.page b.details)
        else [] := by
  have hrecorded := (h.recorded c value s.request).page
  have hbefore := (h.before c (interpreted e.env.settings value) b.info
    (e.recorded c value s.request)).page
  simp only [met, heditable, hconvert, hbound, Bool.not_true, Bool.false_eq_true, if_false]
  rw [hbefore, hrecorded]

/-- A submission adds the demands that its scan meets to the queue, and leaves the page
alone. -/
theorem queues_submit (h : e.LeavesQueue) (c : Component) (text : String) (s : Session) :
    (e.submit c text s).2.request.Queues s.request.page
      (s.request.queue.addAll s.request.page.view (e.met c text s)) := by
  cases heditable : c.editable with
  | false =>
    have hmet : e.met c text s = [] := by simp [met, heditable]
    rw [submit_of_not_editable heditable, hmet]
    exact ⟨rfl, rfl⟩
  | true =>
    cases hconvert : c.convert text with
    | error fault =>
      have hmet : e.met c text s = [] := by simp [met, heditable, hconvert]
      rw [submit_of_refused heditable hconvert, hmet]
      show ((s.request.setStage _ _).addMessages _ _ |>.setStage _ _).Queues _ _
      rw [Request.addMessages_eq]
      exact ⟨rfl, rfl⟩
    | ok value =>
      have hrecorded := h.recorded c value s.request
      rw [submit_of_converted heditable hconvert]
      cases hbound : e.bound? (e.recorded c value s.request) c with
      | none =>
        have hmet : e.met c text s = [] := by simp [met, heditable, hconvert, hbound]
        rw [hmet]
        exact hrecorded
      | some b =>
        have hqueues := queues_validateHooked h c b (interpreted e.env.settings value)
          ⟨s.plugins, e.recorded c value s.request⟩
        have hbefore := h.before c (interpreted e.env.settings value) b.info
          (e.recorded c value s.request)
        have hmet := met_of_bound h heditable hconvert hbound
        refine ⟨hqueues.page.trans hrecorded.page, hqueues.queue.trans ?_⟩
        -- The scan runs after the recorders and the hooks before it, on the page as it was.
        rw [hmet, Groups.queueAfter, hbefore.page, hbefore.queue, hrecorded.page, hrecorded.queue]
        cases (Hook.runBefore c (interpreted e.env.settings value) b.info e.hooks
          (e.recorded c value s.request)).1 <;>
          cases e.env.settings.usesGroupSequences <;> simp [ModelQueue.addAll]

/-- Submissions one after the other: the demands that their scans meet, and the session
afterwards. -/
def submitAll (e : Engine) : List (Component × String) → Session → List ModelDemand × Session
  | [], s => ([], s)
  | (c, text) :: rest, s =>
    let later := submitAll e rest (e.submit c text s).2
    (e.met c text s ++ later.1, later.2)

/-- Submissions one after the other add everything their scans meet to the queue. -/
theorem demands_submitAll (h : e.LeavesQueue) (calls : List (Component × String)) (s : Session) :
    (e.submitAll calls s).2.request.page = s.request.page ∧
    (e.submitAll calls s).2.request.queue.demands s.request.page.view
      = ModelQueue.keepFirst (s.request.queue.demands s.request.page.view)
          (e.submitAll calls s).1 := by
  induction calls generalizing s with
  | nil => exact ⟨rfl, rfl⟩
  | cons call rest ih =>
    obtain ⟨c, text⟩ := call
    -- The page stays, so all submissions queue for one view.
    have hfirst := queues_submit h c text s
    obtain ⟨hpage, hqueue⟩ := ih (e.submit c text s).2
    rw [hfirst.page] at hpage hqueue
    refine ⟨hpage, ?_⟩
    show (e.submitAll rest (e.submit c text s).2).2.request.queue.demands _ = _
    rw [hqueue, hfirst.queue, ModelQueue.demands_addAll, ← ModelQueue.keepFirst_append]
    rfl

/-! ### Draining -/

/-- The targets of demands, each with the demand that asks for it. A demand without groups
asks for nothing. -/
def work (env : Environment) (page : Page) (ds : List ModelDemand) : List (ModelDemand × Bean) :=
  (ds.filter fun d => !d.groups.isEmpty).flatMap fun d =>
    (ModelTargets.ofDemand env page d).map fun target => (d, target)

/-- Validates targets for their demands, one after the other. -/
def validateWork (e : Engine) : List (ModelDemand × Bean) → StateM Session (List ModelFailure)
  | [] => pure []
  | (d, target) :: rest => do
    let failure ← e.validateTarget d target
    let others ← e.validateWork rest
    pure (failure.toList ++ others)

theorem validateWork_append (xs ys : List (ModelDemand × Bean)) (s : Session) :
    e.validateWork (xs ++ ys) s
      = ((e.validateWork xs s).1 ++ (e.validateWork ys (e.validateWork xs s).2).1,
          (e.validateWork ys (e.validateWork xs s).2).2) := by
  induction xs generalizing s with
  | nil => rfl
  | cons item rest ih =>
    obtain ⟨d, target⟩ := item
    simp only [List.cons_append, validateWork, run_bind, run_pure, ih, List.append_assoc]

theorem validateTargets_eq (d : ModelDemand) (targets : List Bean) :
    e.validateTargets d targets = e.validateWork (targets.map fun target => (d, target)) := by
  induction targets with
  | nil => rfl
  | cons target rest ih =>
    rw [validateTargets, ih]
    rfl

/-- Validating targets leaves the page alone. -/
theorem page_validateWork (items : List (ModelDemand × Bean)) (s : Session) :
    (e.validateWork items s).2.request.page = s.request.page := by
  induction items generalizing s with
  | nil => rfl
  | cons item rest ih =>
    obtain ⟨d, target⟩ := item
    have hone : (e.validateTarget d target s).2.request.page = s.request.page := by
      show (e.reportIn d.identity _ s).2.request.page = _
      rw [reportIn_snd]
    exact (ih (e.validateTarget d target s).2).trans hone

/-- Validating demands is validating the targets that they ask for. -/
theorem validateDemands_eq (ds : List ModelDemand) (s : Session) :
    e.validateDemands ds s = e.validateWork (work e.env s.request.page ds) s := by
  induction ds generalizing s with
  | nil => rfl
  | cons d rest ih =>
    rw [validateDemands, run_bind]
    show ((if d.groups.isEmpty then _ else _ : StateM Session (List ModelFailure)) s) = _
    cases hgroups : d.groups.isEmpty with
    | true =>
      have hwork : work e.env s.request.page (d :: rest) = work e.env s.request.page rest := by
        simp [work, hgroups]
      rw [hwork, ← ih s]
      rfl
    | false =>
      have hwork : work e.env s.request.page (d :: rest)
          = (ModelTargets.ofDemand e.env s.request.page d).map (fun target => (d, target))
            ++ work e.env s.request.page rest := by
        simp [work, hgroups]
      rw [hwork, validateWork_append, ← validateTargets_eq]
      -- The targets of the later demands are resolved on the page as the first ones leave it.
      have hpage : (e.validateTargets d (ModelTargets.ofDemand e.env s.request.page d) s).2.request.page
          = s.request.page := by
        rw [validateTargets_eq]
        exact page_validateWork _ s
      have hrest := ih (e.validateTargets d (ModelTargets.ofDemand e.env s.request.page d) s).2
      rw [hpage] at hrest
      rw [← hrest]
      rfl

/-- Draining validates the targets of the demands that wait for the view, one by one. -/
theorem drain_eq (s : Session) :
    e.drain s
      = e.validateWork
          (work e.env s.request.page (s.request.queue.demands s.request.page.view))
          { s with
            request := { s.request with queue := s.request.queue.clear s.request.page.view } } := by
  rw [drain, run_bind]
  exact validateDemands_eq _ _

/-- The objects that draining validates, with their groups. -/
def drained (e : Engine) (r : Request) : List (Bean × List String) :=
  (work e.env r.page (r.queue.demands r.page.view)).map fun item => (item.2, item.1.groups)

theorem mem_drained {r : Request} {target : Bean} {groups : List String} :
    (target, groups) ∈ e.drained r ↔
      groups ≠ [] ∧ ∃ d ∈ r.queue.demands r.page.view,
        d.groups = groups ∧ target ∈ ModelTargets.ofDemand e.env r.page d := by
  simp only [drained, work, List.mem_map, List.mem_flatMap, List.mem_filter, Prod.mk.injEq,
    Prod.exists]
  constructor
  · rintro ⟨d, t, ⟨d', ⟨hd, hgroups⟩, hmem⟩, rfl, rfl⟩
    obtain ⟨t', ht, rfl, rfl⟩ := hmem
    exact ⟨by simpa using hgroups, d', hd, rfl, ht⟩
  · rintro ⟨hgroups, d, hd, rfl, ht⟩
    exact ⟨d, target, ⟨d, ⟨hd, by simpa using hgroups⟩, target, ht, rfl, rfl⟩, rfl, rfl⟩

/-! ### What scans meet -/

/-- What a submission meets is demanded by the scan for the property that its component is
bound to. -/
theorem mem_met (h : e.LeavesQueue) {c : Component} {text : String} {s : Session}
    {d : ModelDemand} (hd : d ∈ e.met c text s) :
    ∃ r b, r.page = s.request.page ∧ e.bound? r c = some b ∧
      d ∈ Groups.demands e.env s.request.page c.identity b.details
        (Groups.scan e.env s.request.page b.details) := by
  cases heditable : c.editable with
  | false => simp [met, heditable] at hd
  | true =>
    cases hconvert : c.convert text with
    | error fault => simp [met, heditable, hconvert] at hd
    | ok value =>
      cases hbound : e.bound? (e.recorded c value s.request) c with
      | none => simp [met, heditable, hconvert, hbound] at hd
      | some b =>
        rw [met_of_bound h heditable hconvert hbound] at hd
        split at hd
        · exact ⟨_, b, (h.recorded c value s.request).page, hbound, hd⟩
        · cases hd

/-- A demand that a scan meets has groups left, and its source is an object of the page. -/
theorem met_spec (h : e.LeavesQueue) {alive : Bean → Prop} {c : Component} {text : String}
    {s : Session} (hobjects : e.ObjectsOn s.request.page alive) {d : ModelDemand}
    (hd : d ∈ e.met c text s) : d.groups ≠ [] ∧ alive d.source := by
  obtain ⟨r, b, hpage, hbound, hdemand⟩ := mem_met h hd
  obtain ⟨l, controller, hfound, -, rfl, hgroups⟩ := Groups.mem_demands.1 hdemand
  refine ⟨hgroups, ?_⟩
  -- The source is the root object of the binding or the owner of the property.
  rcases Groups.object_of_mem_places (Groups.mem_scan.1 hfound).1 with hroot | hbase
  · obtain ⟨found, hfound, hbean⟩ := Option.bind_eq_some_iff.1 hroot
    obtain ⟨name, -, hname⟩ := Option.bind_eq_some_iff.1 hfound
    rw [Value.eq_object_of_asBean? hbean] at hname
    exact hobjects.named name l.object hname
  · exact hobjects.owner r hpage c b hbound l.object hbase

theorem submitAll_spec (h : e.LeavesQueue) {alive : Bean → Prop}
    {calls : List (Component × String)} {s : Session}
    (hobjects : e.ObjectsOn s.request.page alive) {d : ModelDemand}
    (hd : d ∈ (e.submitAll calls s).1) : d.groups ≠ [] ∧ alive d.source := by
  induction calls generalizing s with
  | nil => cases hd
  | cons call rest ih =>
    obtain ⟨c, text⟩ := call
    rcases List.mem_append.1 hd with hd | hd
    · exact met_spec h hobjects hd
    · refine ih ?_ hd
      rw [(queues_submit h c text s).page]
      exact hobjects

/-- What draining validates after submissions: the targets of the demands that are kept. -/
theorem mem_drained_submitAll (h : e.LeavesQueue) (calls : List (Component × String)) (s : Session)
    {target : Bean} {groups : List String} :
    (target, groups) ∈ e.drained (e.submitAll calls s).2.request ↔
      groups ≠ [] ∧
        ∃ w ∈ ModelQueue.keepFirst (s.request.queue.demands s.request.page.view)
            (e.submitAll calls s).1,
          w.groups = groups ∧ target ∈ ModelTargets.ofDemand e.env s.request.page w := by
  obtain ⟨hpage, hqueue⟩ := demands_submitAll h calls s
  rw [mem_drained, hpage, hqueue]

/-- The targets of a demand for others than the default one are validated, on account of the
demand of its kind that is kept. -/
theorem mem_drained_of_met (h : e.LeavesQueue) {s : Session} {alive : Bean → Prop}
    (hobjects : e.ObjectsOn s.request.page alive)
    (hwaiting : ∀ w ∈ s.request.queue.demands s.request.page.view, alive w.source)
    {calls : List (Component × String)} {d : ModelDemand} (hd : d ∈ (e.submitAll calls s).1)
    (htargets : d.targets ≠ [defaultTarget]) {target : Bean}
    (htarget : target ∈ ModelTargets.ofDemand e.env s.request.page d) :
    (target, d.groups) ∈ e.drained (e.submitAll calls s).2.request := by
  obtain ⟨w, hw, hsame⟩ := ModelQueue.exists_sameAs_of_mem
    (s.request.queue.demands s.request.page.view) hd
  obtain ⟨hidentity, hgroups, hcontroller⟩ := ModelDemand.sameAs_iff.1 hsame
  obtain ⟨hleft, hsource⟩ := submitAll_spec h hobjects hd
  have hkept : alive w.source := by
    rcases ModelQueue.mem_of_mem_keepFirst hw with hw | hw
    · exact hwaiting w hw
    · exact (submitAll_spec h hobjects hw).2
  -- One identity is one object, so both demands start from the same source.
  have hone : w.source = d.source := hobjects.distinct _ _ hkept hsource hidentity
  refine (mem_drained_submitAll h calls s).2 ⟨hleft, w, hw, hgroups, ?_⟩
  rw [ModelTargets.ofDemand_congr hone hcontroller htargets]
  exact htarget

end Engine

/-- Which demands draining serves. Take submissions one after the other, for any request, on
an engine whose hooks and recorders leave the page and the queue alone. Draining then
validates the targets of the demands that are kept: those that waited before, and the first
one of each kind that the scans of the submissions have met. A demand for other targets than
the default one is never lost. None is lost at all just when every default target that a
scan has asked for is among the targets of a kept demand with the same groups. -/
theorem drain_validates_demands_iff {e : Engine} (h : e.LeavesQueue) {s : Session}
    {alive : Bean → Prop} (hobjects : e.ObjectsOn s.request.page alive)
    (hwaiting : ∀ w ∈ s.request.queue.demands s.request.page.view, alive w.source)
    (calls : List (Component × String)) :
    let met := (e.submitAll calls s).1
    let final := (e.submitAll calls s).2
    let kept := ModelQueue.keepFirst (s.request.queue.demands s.request.page.view) met
    let targets := ModelTargets.ofDemand e.env s.request.page
    e.drain final
      = e.validateWork (Engine.work e.env s.request.page kept)
          ⟨final.plugins, { final.request with
            queue := final.request.queue.clear s.request.page.view }⟩ ∧
    (∀ d ∈ met, d.targets ≠ [defaultTarget] →
      ∀ target ∈ targets d, (target, d.groups) ∈ e.drained final.request) ∧
    ((∀ d ∈ met, ∀ target ∈ targets d, (target, d.groups) ∈ e.drained final.request) ↔
      ∀ d ∈ met, d.targets = [defaultTarget] →
        ∃ w ∈ kept, w.groups = d.groups ∧ d.defaultTarget ∈ targets w) := by
  intro met final kept targets
  obtain ⟨hpage, hqueue⟩ := Engine.demands_submitAll h calls s
  have hother : ∀ d ∈ met, d.targets ≠ [defaultTarget] →
      ∀ target ∈ targets d, (target, d.groups) ∈ e.drained final.request :=
    fun d hd htargets target htarget =>
      Engine.mem_drained_of_met h hobjects hwaiting hd htargets htarget
  refine ⟨?_, hother, ?_, ?_⟩
  · rw [Engine.drain_eq, hpage, hqueue]
  · intro hall d hd htargets
    have htarget : d.defaultTarget ∈ targets d := by
      show d.defaultTarget ∈ ModelTargets.ofDemand e.env s.request.page d
      rw [ModelTargets.ofDemand_of_default htargets]
      exact List.mem_singleton_self _
    exact ((Engine.mem_drained_submitAll h calls s).1 (hall d hd _ htarget)).2
  · intro hdefault d hd target htarget
    by_cases htargets : d.targets = [defaultTarget]
    · have hone : target = d.defaultTarget := by
        change target ∈ ModelTargets.ofDemand e.env s.request.page d at htarget
        rw [ModelTargets.ofDemand_of_default htargets] at htarget
        exact List.mem_singleton.1 htarget
      have hleft := (Engine.submitAll_spec h hobjects hd).1
      rw [hone]
      exact (Engine.mem_drained_submitAll h calls s).2 ⟨hleft, hdefault d hd htargets⟩
    · exact hother d hd htargets target htarget

/-! ### A form with two fields -/

/-- The standard recorder and no hooks leave the page and the queue alone. -/
theorem Engine.leavesQueue_of_unhooked {e : Engine} (hhooks : e.hooks = [])
    (hrecorders : e.recorders = [.standard]) : e.LeavesQueue where
  record c value r := by
    obtain ⟨recorded, heq⟩ := recordAll_eq hrecorders c value r
    rw [heq]
    exact ⟨rfl, rfl⟩
  before _ _ _ _ := by
    rw [hhooks]
    exact ⟨rfl, rfl⟩
  after _ _ _ _ := by
    rw [hhooks]
    exact ⟨rfl, rfl⟩

/-- A registration asks for the validation of the owner of every property that is edited. Its
account needs a password, and its address a city. -/
def registrationParts : EngineParts where
  types := .ofTypes
    [{ name := "Registration"
       annotations := [.controller { modelValidation := { isActive := true } }]
       properties := [.new "account", .new "address"] },
      { name := "Account", properties :=
          [.new "email", (PropertyDecl.new "password").onField (.constraint { rule := .notNull })] },
      { name := "Address", properties :=
          [.new "street", (PropertyDecl.new "city").onField (.constraint { rule := .notNull })] }]

/-- A page with a registration whose account and address are empty. -/
def registrationPage : Request :=
  .new "/edit.xhtml" (Dict.ofList [("reg", .object ⟨1, "Registration",
    [("account", .object ⟨2, "Account", []⟩), ("address", .object ⟨3, "Address", []⟩)]⟩)])

/-- A field for the e-mail of the account. -/
def emailField : Component where
  clientId := "form:email"
  valueBinding := some "#\x7breg.account.email\x7d"

/-- A field for the street of the address. -/
def streetField : Component where
  clientId := "form:street"
  valueBinding := some "#\x7breg.address.street\x7d"

/-- Both fields ask for a validation of the object that they belong to. The two demands are
of one kind, so only the first one is kept, and the address is not validated, although it
has no city. After a submission of the street alone it is. -/
theorem drain_loses_address :
    let e := registrationParts.engine
    let s := Session.start e registrationPage
    let run := e.submitAll [(emailField, "a@b.at"), (streetField, "Main")] s
    (¬ ∀ d ∈ run.1, ∀ target ∈ ModelTargets.ofDemand e.env s.request.page d,
      (target, d.groups) ∈ e.drained run.2.request) ∧
    (e.drain run.2).1.map (·.targetType) = ["Account"] ∧
    (e.drain (e.submit streetField "Main" s).2).1.map (·.targetType) = ["Address"] := by
  intro e s run
  refine ⟨fun hall => ?_, by decide +kernel, by decide +kernel⟩
  -- Compared by the names of their types, two targets are asked for and one is served.
  have hasked : ((run.1.flatMap fun d => (ModelTargets.ofDemand e.env s.request.page d).map
      fun target => (target.typeName, d.groups))) = [("Account", ["Default"]), ("Address", ["Default"])] := by
    decide +kernel
  have hserved : (e.drained run.2.request).map (fun pair => (pair.1.typeName, pair.2))
      = [("Account", ["Default"])] := by decide +kernel
  have hmem : ("Address", ["Default"]) ∈ run.1.flatMap fun d =>
      (ModelTargets.ofDemand e.env s.request.page d).map fun target =>
        (target.typeName, d.groups) := by
    rw [hasked]
    simp
  obtain ⟨d, hd, hpair⟩ := List.mem_flatMap.1 hmem
  obtain ⟨target, htarget, heq⟩ := List.mem_map.1 hpair
  have hlost : ("Address", ["Default"]) ∈
      (e.drained run.2.request).map fun pair => (pair.1.typeName, pair.2) :=
    List.mem_map.2 ⟨(target, d.groups), hall d hd target htarget, heq⟩
  rw [hserved] at hlost
  simp at hlost

/-- The street alone: its one demand is kept, so nothing is lost. -/
theorem drain_validates_demands_iff_street :
    let e := registrationParts.engine
    let s := Session.start e registrationPage
    let run := e.submitAll [(streetField, "Main")] s
    run.1.map (·.defaultTarget.typeName) = ["Address"] ∧
    ∀ d ∈ run.1, ∀ target ∈ ModelTargets.ofDemand e.env s.request.page d,
      (target, d.groups) ∈ e.drained run.2.request := by
  intro e s run
  have hmet : run.1.map (·.defaultTarget.typeName) = ["Address"] := by decide +kernel
  have hleaves : e.LeavesQueue := Engine.leavesQueue_of_unhooked rfl rfl
  have hdistinct : ((Scope.objects s.request.page.scope).map (·.identity)).Nodup := by
    decide +kernel
  have hobjects : e.ObjectsOn s.request.page fun bean => bean ∈ Scope.objects s.request.page.scope :=
    Engine.objectsOn_standard rfl rfl fun _ ha _ hb => List.inj_on_of_nodup_map hdistinct ha hb
  have hwaiting : ∀ w ∈ s.request.queue.demands s.request.page.view,
      w.source ∈ Scope.objects s.request.page.scope := fun w hw => by cases hw
  obtain ⟨-, -, hiff⟩ :=
    drain_validates_demands_iff hleaves hobjects hwaiting [(streetField, "Main")]
  obtain ⟨only, hone, -⟩ := List.map_eq_singleton_iff.1 hmet
  refine ⟨hmet, hiff.2 fun d hd htargets => ⟨d, ?_, rfl, ?_⟩⟩
  · change d ∈ run.1 at hd
    show d ∈ ModelQueue.keepFirst [] run.1
    rw [hone] at hd ⊢
    exact hd
  · show d.defaultTarget ∈ ModelTargets.ofDemand e.env s.request.page d
    rw [ModelTargets.ofDemand_of_default htargets]
    exact List.mem_singleton_self _

end FieldGuard
