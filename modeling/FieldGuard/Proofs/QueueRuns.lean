import FieldGuard.Proofs.ModelDemands
import FieldGuard.Proofs.Rendering
import Mathlib.Data.List.ReduceOption

/-!
# `FieldGuard.Proofs.QueueRuns`: every queued demand is served once

Components are rendered and submitted, the application queues demands of its own for any views,
and the queue is drained, in any order. The queue is first in, first out over such a run: what
waited at the start and what the calls have queued is what has been taken and what still waits.
Only draining takes anything, and it serves what it takes: each object that a demand wants to be
validated gets one verdict.

* `Engine.queues_init`, `Engine.grows_submit`, `Engine.demands_drain`: what each kind of call does
  to the queue;
* `Engine.waits_of_met`: what the scan of a submission meets is queued, unless one of its kind
  waits already;
* `Engine.validateWork_verdicts`: the failures of objects are the verdicts on them;
* `QueueCall.balance_run`, `QueueCall.balance_runAll`: the balance of one call and of a run;
* `queued_served_once`: all of it for any calls.

Recorders and hooks come from an application. `Engine.GrowsQueue` says that they leave the view
as it is and withdraw nothing from the queue; they may add to it.
-/

set_option autoImplicit false

namespace FieldGuard

/-! ### A queue that grows -/

namespace ModelQueue

theorem prefix_add (q : ModelQueue) (view other : String) (d : ModelDemand) :
    q.demands other <+: (q.add view d).demands other := by
  rw [demands_add]
  split
  · next h =>
    rw [h.1]
    exact List.prefix_append _ _
  · exact List.prefix_rfl

theorem prefix_addAll (q : ModelQueue) (view other : String) (ds : List ModelDemand) :
    q.demands other <+: (q.addAll view ds).demands other := by
  induction ds generalizing q with
  | nil => exact List.prefix_rfl
  | cons d rest ih => exact (prefix_add q view other d).trans (ih (q.add view d))

theorem demands_addAll_of_ne (q : ModelQueue) {view other : String} (h : view ≠ other)
    (ds : List ModelDemand) : (q.addAll view ds).demands other = q.demands other := by
  induction ds generalizing q with
  | nil => rfl
  | cons d rest ih =>
    have hone : (q.add view d).demands other = q.demands other := by simp [demands_add, h]
    rw [← hone]
    exact ih (q.add view d)

/-- Kept demands stay in front, and those that join them come in their own order. -/
theorem exists_keepFirst_eq (kept ds : List ModelDemand) :
    ∃ added, keepFirst kept ds = kept ++ added ∧ added.Sublist ds := by
  induction ds generalizing kept with
  | nil => exact ⟨[], (List.append_nil kept).symm, List.Sublist.slnil⟩
  | cons d rest ih =>
    rw [keepFirst]
    split
    · obtain ⟨added, heq, hsub⟩ := ih kept
      exact ⟨added, heq, hsub.cons d⟩
    · obtain ⟨added, heq, hsub⟩ := ih (kept ++ [d])
      exact ⟨d :: added, by rw [heq, List.append_assoc, List.singleton_append], hsub.cons_cons d⟩

end ModelQueue

/-- The view stays, and demands may join those that wait, but none is withdrawn. -/
structure Request.Grows (r r' : Request) : Prop where
  view : r'.page.view = r.page.view
  queue : ∀ view, r.queue.demands view <+: r'.queue.demands view

namespace Request.Grows

theorem refl (r : Request) : r.Grows r :=
  ⟨rfl, fun _ => List.prefix_rfl⟩

theorem trans {a b c : Request} (h : a.Grows b) (h' : b.Grows c) : a.Grows c :=
  ⟨h'.view.trans h.view, fun view => (h.queue view).trans (h'.queue view)⟩

end Request.Grows

namespace Engine

/-- Recorders and hooks may queue demands, but they withdraw none. -/
structure GrowsQueue (e : Engine) : Prop where
  record : ∀ c value (r : Request), r.Grows (Recorder.recordAll e.recorders e.env c value r)
  before : ∀ c value info (r : Request), r.Grows (Hook.runBefore c value info e.hooks r).2
  after : ∀ c value info (r : Request), r.Grows (Hook.runAfter c value info e.hooks r)

/-- Those that leave the queue alone do not. -/
theorem LeavesQueue.grows {e : Engine} (h : e.LeavesQueue) : e.GrowsQueue := by
  have hgrows : ∀ {r r' : Request}, r'.Queues r.page r.queue → r.Grows r' := by
    intro r r' hr
    refine ⟨congrArg Page.view hr.page, fun view => ?_⟩
    simp [hr.queue]
  exact ⟨fun c value r => hgrows (h.record c value r),
    fun c value info r => hgrows (h.before c value info r),
    fun c value info r => hgrows (h.after c value info r)⟩

variable {e : Engine}

/-- A resolution of groups may queue demands, too. -/
theorem grows_resolve (env : Environment) (i : Identity) (d : Details) (queues : Bool)
    (r : Request) : r.Grows (Groups.resolve env i d queues r).2 := by
  rw [Groups.resolve_eq]
  refine ⟨rfl, fun view => ?_⟩
  show _ <+: (Groups.queueAfter env i d queues r).demands view
  unfold Groups.queueAfter
  split
  · exact ModelQueue.prefix_addAll _ _ _ _
  · exact List.prefix_rfl

theorem GrowsQueue.frame (h : e.GrowsQueue) (c : Component) (r : Request) : e.Frame c r.Grows where
  setStage _ _ _ hr := ⟨hr.view, hr.queue⟩
  addMessages _ _ _ hr := by
    rw [Request.addMessages_eq]
    exact ⟨hr.view, hr.queue⟩
  resolve d queues r' hr := hr.trans (grows_resolve e.env c.identity d queues r')
  record value r' hr := hr.trans (h.record c value r')
  before value info r' hr := hr.trans (h.before c value info r')
  after value info r' hr := hr.trans (h.after c value info r')

/-- A submission withdraws no demand. -/
theorem grows_submit (h : e.GrowsQueue) (c : Component) (text : String) (s : Session) :
    s.request.Grows (e.submit c text s).2.request := by
  exact (keeps_submit Plugins.stable_true (h.frame c s.request) text s ⟨trivial, .refl _⟩).2

/-- Rendering changes neither the page nor the queue. -/
theorem queues_init (c : Component) (s : Session) :
    (e.init c s).2.request.Queues s.request.page s.request.queue := by
  cases hbound : e.bound? (s.request.setStage c.clientId .init) c with
  | none =>
    obtain ⟨stage, hinit⟩ := init_of_bound_none hbound
    rw [hinit]
    exact ⟨rfl, rfl⟩
  | some b =>
    obtain ⟨stages, hrequest⟩ := request_init hbound
    rw [hrequest]
    exact ⟨rfl, rfl⟩

/-- After a validation that the hooks agree to, one of the kind of each demand of the scan
waits. -/
theorem waits_validateHooked (h : e.GrowsQueue) (c : Component) (b : Bound) (value : Value)
    (s : Session) (hagreed : (Hook.runBefore c value b.info e.hooks s.request).1 = true)
    (hcontrollers : e.env.settings.usesGroupSequences = false) {d : ModelDemand}
    (hd : d ∈ Groups.demands e.env (Hook.runBefore c value b.info e.hooks s.request).2.page
      c.identity b.details (Groups.scan e.env
        (Hook.runBefore c value b.info e.hooks s.request).2.page b.details)) :
    ∃ w ∈ (e.validateHooked c b value s).2.request.queue.demands s.request.page.view,
      w.sameAs d = true := by
  have hview := (h.before c value b.info s.request).view
  have hvalidated := queues_validate e c b value
    ⟨s.plugins, (Hook.runBefore c value b.info e.hooks s.request).2⟩
  obtain ⟨info, stage, hrequest⟩ := request_of_agreed e c b value s hagreed
  have hafter := h.after c value info (e.validate c b value
    ⟨s.plugins, (Hook.runBefore c value b.info e.hooks s.request).2⟩).2.request
  obtain ⟨w, hw, hsame⟩ := ModelQueue.exists_sameAs_of_mem
    ((Hook.runBefore c value b.info e.hooks s.request).2.queue.demands s.request.page.view) hd
  -- The hooks that run after the validation withdraw nothing of what it has queued.
  refine ⟨w, ?_, hsame⟩
  rw [hrequest]
  refine (hafter.queue s.request.page.view).subset ?_
  rw [hvalidated.queue, Groups.queueAfter, hcontrollers]
  show w ∈ (ModelQueue.addAll _ (Hook.runBefore c value b.info e.hooks s.request).2.page.view
    _).demands s.request.page.view
  rw [hview, ModelQueue.demands_addAll]
  exact hw

/-- After a submission, one of the kind of each demand that its scan meets waits. -/
theorem waits_of_met (h : e.GrowsQueue) (c : Component) (text : String) (s : Session)
    {d : ModelDemand} (hd : d ∈ e.met c text s) :
    ∃ w ∈ (e.submit c text s).2.request.queue.demands s.request.page.view,
      w.sameAs d = true := by
  cases heditable : c.editable with
  | false => simp [met, heditable] at hd
  | true =>
    cases hconvert : c.convert text with
    | error fault => simp [met, heditable, hconvert] at hd
    | ok value =>
      cases hbound : e.bound? (e.recorded c value s.request) c with
      | none => simp [met, heditable, hconvert, hbound] at hd
      | some b =>
        have hview : (e.recorded c value s.request).page.view = s.request.page.view :=
          (h.record c value ((s.request.setStage c.clientId .rawInput).setStage c.clientId
            .converted)).view
        simp only [met, heditable, hconvert, hbound, Bool.not_true, Bool.false_eq_true,
          if_false] at hd
        split at hd
        · next hscans =>
          rw [Bool.and_eq_true, Bool.not_eq_true'] at hscans
          rw [submit_of_converted heditable hconvert, hbound, ← hview]
          exact waits_validateHooked h c b (interpreted e.env.settings value)
            ⟨s.plugins, e.recorded c value s.request⟩ hscans.1 hscans.2 hd
        · cases hd

/-! ### Verdicts -/

/-- The reviewer suppresses violations: they are not reported. -/
def suppresses (i : Identity) : List Violation → Plugins → Bool
  | [], _ => false
  | first :: rest, p => !(review i (first :: rest) (.error (labelled first)) p).1.1

/-- Violations are reported unless they are suppressed. -/
theorem isSome_report (e : Engine) (i : Identity) (violations : List Violation) (p : Plugins) :
    (e.report i violations p).1.isSome = true ↔
      violations ≠ [] ∧ suppresses i violations p = false := by
  cases violations with
  | nil => simp [report_nil]
  | cons first rest =>
    rw [report_cons, suppresses]
    cases (review i (first :: rest) (.error (labelled first)) p).1.1 <;> simp

theorem violations_of_report {i : Identity} {violations : List Violation} {p : Plugins}
    {failure : Failure} (h : (e.report i violations p).1 = some failure) :
    failure.violations = violations := by
  cases violations with
  | nil => cases h
  | cons first rest =>
    rw [report_cons] at h
    split at h
    · cases h
      rfl
    · cases h

/-- The verdict on an object that a demand wants to be validated: its failure, if it has
violations that are reported. -/
def verdict (e : Engine) (item : ModelDemand × Bean) : StateM Plugins (Option ModelFailure) := do
  let failure ← e.report item.1.identity (e.env.constraints.validate item.2 item.1.groups)
  pure (failure.map fun f => ⟨item.1.identity, item.2.typeName, f⟩)

/-- An object fails if it has violations that are not suppressed. -/
theorem isSome_verdict (item : ModelDemand × Bean) (p : Plugins) :
    (e.verdict item p).1.isSome = true ↔
      e.env.constraints.validate item.2 item.1.groups ≠ [] ∧
        suppresses item.1.identity (e.env.constraints.validate item.2 item.1.groups) p = false := by
  rw [← isSome_report e, verdict, run_bind, run_pure, Option.isSome_map]

/-- The failure is that of the object, with all its violations. -/
theorem eq_of_verdict {item : ModelDemand × Bean} {p : Plugins} {failure : ModelFailure}
    (h : (e.verdict item p).1 = some failure) :
    failure.identity = item.1.identity ∧ failure.targetType = item.2.typeName ∧
      failure.failure.violations = e.env.constraints.validate item.2 item.1.groups := by
  rw [verdict, run_bind, run_pure] at h
  obtain ⟨reported, hreport, rfl⟩ := Option.map_eq_some_iff.1 h
  exact ⟨rfl, rfl, violations_of_report hreport⟩

/-- Validating objects yields the failures among their verdicts, and changes nothing of the
request but the messages. -/
theorem validateWork_verdicts (items : List (ModelDemand × Bean)) (s : Session) :
    (e.validateWork items s).1 = (items.mapM e.verdict s.plugins).1.reduceOption ∧
    (e.validateWork items s).2.plugins = (items.mapM e.verdict s.plugins).2 ∧
    ∃ messages, (e.validateWork items s).2.request = { s.request with messages } := by
  induction items generalizing s with
  | nil => exact ⟨rfl, rfl, s.request.messages, rfl⟩
  | cons item rest ih =>
    obtain ⟨d, target⟩ := item
    -- The verdict is the same as in a session, and the registries it leaves are those with which
    -- the next one is reached.
    have hfirst : (e.validateTarget d target s).1 = (e.verdict (d, target) s.plugins).1 := by
      show Option.map _ (e.reportIn d.identity _ s).1 = _
      rw [reportIn_fst]
      rfl
    have hsession := reportIn_snd e d.identity (e.env.constraints.validate target d.groups) s
    obtain ⟨hrest, hplugins, messages, hrequest⟩ := ih (e.validateTarget d target s).2
    have hstep : (e.validateTarget d target s).2.plugins = (e.verdict (d, target) s.plugins).2 := by
      show (e.reportIn d.identity _ s).2.plugins = _
      rw [hsession]
      rfl
    rw [hstep] at hrest hplugins
    have hall : ((d, target) :: rest).mapM e.verdict s.plugins
        = ((e.verdict (d, target) s.plugins).1
            :: (rest.mapM e.verdict (e.verdict (d, target) s.plugins).2).1,
          (rest.mapM e.verdict (e.verdict (d, target) s.plugins).2).2) := by
      rw [List.mapM_cons]
      rfl
    refine ⟨?_, ?_, messages, ?_⟩
    · rw [validateWork, run_bind, run_bind, run_pure, hall, hrest, hfirst]
      cases (e.verdict (d, target) s.plugins).1 <;> rfl
    · rw [hall, ← hplugins]
      rfl
    · show (e.validateWork rest (e.validateTarget d target s).2).2.request = _
      rw [hrequest]
      show { (e.reportIn d.identity _ s).2.request with messages := messages } = _
      rw [hsession]

theorem length_verdicts (items : List (ModelDemand × Bean)) (p : Plugins) :
    (items.mapM e.verdict p).1.length = items.length := by
  induction items generalizing p with
  | nil => rfl
  | cons item rest ih =>
    rw [List.mapM_cons, run_bind, run_bind, run_pure, List.length_cons, ih, List.length_cons]

/-- Draining takes everything that waits for the view, and nothing else. -/
theorem demands_drain (s : Session) :
    (e.drain s).2.request.page = s.request.page ∧
    (e.drain s).2.request.queue = s.request.queue.clear s.request.page.view := by
  obtain ⟨-, -, messages, hrequest⟩ := validateWork_verdicts (e := e)
    (work e.env s.request.page (s.request.queue.demands s.request.page.view))
    { s with request := { s.request with queue := s.request.queue.clear s.request.page.view } }
  rw [drain_eq, hrequest]
  exact ⟨rfl, rfl⟩

/-- With nothing waiting, draining returns nothing and adds no message. -/
theorem drain_of_empty {s : Session} (h : s.request.queue.demands s.request.page.view = []) :
    (e.drain s).1 = [] ∧ (e.drain s).2.request.messages = s.request.messages := by
  have hnone : (e.drain s).1 = [] := by
    rw [drain_eq, h]
    rfl
  have hmessages := (reports_drain e).messages s
  rw [hnone] at hmessages
  exact ⟨hnone, by simpa using hmessages⟩

end Engine

/-! ### Runs -/

/-- The demands of a view that wait. -/
def Session.waiting (s : Session) (view : String) : List ModelDemand :=
  s.request.queue.demands view

/-- A call of an engine for a request, or a demand that the application adds to the queue of
a view. -/
inductive QueueCall where
  | add (view : String) (d : ModelDemand)
  | engine (c : Call)

namespace QueueCall

variable (e : Engine)

/-- The session after a call. -/
def run : QueueCall → Session → Session
  | .add view d, s =>
    { s with request := { s.request with queue := s.request.queue.add view d } }
  | .engine c, s => c.run e s

/-- The session after calls, one after the other. -/
def runAll : List QueueCall → Session → Session
  | [], s => s
  | call :: rest, s => runAll rest (call.run e s)

/-- Whether the call drains the queue. -/
def drains : QueueCall → Bool
  | .engine .drain => true
  | _ => false

/-- The demands that a call asks for, each with its view: the one that is added, or those that
the scan of a submission meets. -/
def asked : QueueCall → Session → List (String × ModelDemand)
  | .add view d, _ => [(view, d)]
  | .engine (.submit c text), s => (e.met c text s).map fun d => (s.request.page.view, d)
  | .engine _, _ => []

/-- The demands of a view that a call takes from the queue. -/
def taken (view : String) : QueueCall → Session → List ModelDemand
  | .engine .drain, s =>
    if s.request.page.view = view then s.waiting view else []
  | _, _ => []

/-- The demands of a view that wait after a call behind those that it has left. -/
def queued (view : String) (call : QueueCall) (s : Session) : List ModelDemand :=
  ((call.run e s).waiting view).drop
    ((s.waiting view).length - (call.taken view s).length)

/-- The demands of a view that calls take from the queue, in the order of the calls. -/
def takenAll (view : String) : List QueueCall → Session → List ModelDemand
  | [], _ => []
  | call :: rest, s => call.taken view s ++ takenAll view rest (call.run e s)

/-- The demands of a view that calls put into the queue, in the order of the calls. -/
def queuedAll (view : String) : List QueueCall → Session → List ModelDemand
  | [], _ => []
  | call :: rest, s => call.queued e view s ++ queuedAll view rest (call.run e s)

variable {e}

/-- Of the calls only draining takes anything, and it leaves nothing for its view. -/
theorem kept_run (h : e.GrowsQueue) (call : QueueCall) (s : Session) :
    (call.run e s).request.page.view = s.request.page.view ∧
    ∀ view, ∃ kept, s.waiting view = call.taken view s ++ kept ∧
      kept <+: (call.run e s).waiting view := by
  cases call with
  | add v d => exact ⟨rfl, fun view => ⟨_, rfl, ModelQueue.prefix_add _ v view d⟩⟩
  | engine c =>
    cases c with
    | init c =>
      have hqueues := Engine.queues_init (e := e) c s
      refine ⟨congrArg Page.view hqueues.page, fun view => ⟨_, rfl, ?_⟩⟩
      show _ <+: (e.init c s).2.request.queue.demands view
      rw [hqueues.queue]
      exact List.prefix_rfl
    | submit c text =>
      have hgrows := Engine.grows_submit h c text s
      exact ⟨hgrows.view, fun view => ⟨_, rfl, hgrows.queue view⟩⟩
    | drain =>
      obtain ⟨hpage, hqueue⟩ := Engine.demands_drain (e := e) s
      refine ⟨congrArg Page.view hpage, fun view => ?_⟩
      show ∃ kept, _ ∧ kept <+: (e.drain s).2.request.queue.demands view
      rw [hqueue, ModelQueue.demands_clear, taken]
      split
      · exact ⟨[], (List.append_nil _).symm, List.prefix_rfl⟩
      · exact ⟨_, rfl, List.prefix_rfl⟩

/-- Behind what a call leaves stands what it has queued. -/
theorem queued_eq {call : QueueCall} {s : Session} {view : String} {kept added : List ModelDemand}
    (hbefore : s.waiting view = call.taken view s ++ kept)
    (hafter : (call.run e s).waiting view = kept ++ added) : call.queued e view s = added := by
  rw [queued, hafter, hbefore, List.length_append, Nat.add_sub_cancel_left, List.drop_left]

/-- What waits before a call and what it queues is what it takes and what waits afterwards. -/
theorem balance_run (h : e.GrowsQueue) (view : String) (call : QueueCall) (s : Session) :
    s.waiting view ++ call.queued e view s
      = call.taken view s ++ (call.run e s).waiting view := by
  obtain ⟨kept, hbefore, added, hafter⟩ := (kept_run h call s).2 view
  rw [queued_eq hbefore hafter.symm, hbefore, ← hafter, List.append_assoc]

theorem view_runAll (h : e.GrowsQueue) (calls : List QueueCall) (s : Session) :
    (runAll e calls s).request.page.view = s.request.page.view := by
  induction calls generalizing s with
  | nil => rfl
  | cons call rest ih => exact (ih (call.run e s)).trans (kept_run h call s).1

/-- Over any run the queue is first in, first out, and nothing is lost or taken twice. -/
theorem balance_runAll (h : e.GrowsQueue) (view : String) (calls : List QueueCall) (s : Session) :
    s.waiting view ++ queuedAll e view calls s
      = takenAll e view calls s ++ (runAll e calls s).waiting view := by
  induction calls generalizing s with
  | nil => exact List.append_nil _
  | cons call rest ih =>
    calc s.waiting view ++ (call.queued e view s ++ queuedAll e view rest (call.run e s))
        = call.taken view s ++ ((call.run e s).waiting view
            ++ queuedAll e view rest (call.run e s)) := by
          rw [← List.append_assoc, balance_run h, List.append_assoc]
      _ = call.taken view s ++ (takenAll e view rest (call.run e s)
            ++ (runAll e rest (call.run e s)).waiting view) := by
          rw [ih (call.run e s)]
      _ = _ := (List.append_assoc _ _ _).symm

/-- What waits for other views than the one of the request is not taken. -/
theorem takenAll_of_other (h : e.GrowsQueue) {view : String} (calls : List QueueCall) {s : Session}
    (hview : view ≠ s.request.page.view) : takenAll e view calls s = [] := by
  induction calls generalizing s with
  | nil => rfl
  | cons call rest ih =>
    have hnone : call.taken view s = [] := by
      unfold taken
      split
      · exact if_neg (Ne.symm hview)
      · rfl
    rw [takenAll, hnone, List.nil_append]
    refine ih ?_
    rwa [(kept_run h call s).1]

theorem takenAll_of_undrained {view : String} {calls : List QueueCall}
    (h : ∀ call ∈ calls, call.drains = false) (s : Session) : takenAll e view calls s = [] := by
  induction calls generalizing s with
  | nil => rfl
  | cons call rest ih =>
    obtain ⟨hcall, hrest⟩ := List.forall_mem_cons.1 h
    have hnone : call.taken view s = [] := by
      unfold taken
      split
      · cases hcall
      · rfl
    rw [takenAll, hnone, ih hrest, List.nil_append]

/-- For every demand that a call asks for, one of its kind waits afterwards. -/
theorem waits_of_asked (h : e.GrowsQueue) (call : QueueCall) (s : Session) {view : String}
    {d : ModelDemand} (hd : (view, d) ∈ call.asked e s) :
    ∃ w ∈ (call.run e s).waiting view, w.sameAs d = true := by
  cases call with
  | add v demand =>
    cases List.mem_singleton.1 hd
    obtain ⟨w, hw, hsame⟩ := ModelQueue.exists_sameAs_of_mem (s.waiting view)
      (List.mem_singleton_self d)
    rw [Session.waiting, ← ModelQueue.demands_addAll] at hw
    exact ⟨w, hw, hsame⟩
  | engine c =>
    cases c with
    | init c => cases hd
    | drain => cases hd
    | submit c text =>
      obtain ⟨demand, hmet, heq⟩ := List.mem_map.1 hd
      cases heq
      exact Engine.waits_of_met h c text s hmet

/-- When a queue has been extended by demands for one view, what has been queued are some of
these. -/
theorem sublist_of_addAll {call : QueueCall} {s : Session} {v : String} {ds : List ModelDemand}
    (hasked : call.asked e s = ds.map fun d => (v, d)) {view : String}
    (htaken : call.taken view s = [])
    (hqueue : (call.run e s).request.queue = s.request.queue.addAll v ds) :
    (call.queued e view s).Sublist (((call.asked e s).filter (·.1 = view)).map (·.2)) := by
  have hbefore : s.waiting view = call.taken view s ++ s.waiting view := by
    rw [htaken, List.nil_append]
  by_cases hv : v = view
  · obtain ⟨added, hkept, hsub⟩ := ModelQueue.exists_keepFirst_eq (s.waiting view) ds
    have hafter : (call.run e s).waiting view = s.waiting view ++ added := by
      rw [Session.waiting, hqueue, hv, ModelQueue.demands_addAll]
      exact hkept
    rw [queued_eq hbefore hafter, hasked, hv]
    simpa [List.filter_map, Function.comp_def] using hsub
  · have hafter : (call.run e s).waiting view = s.waiting view ++ [] := by
      rw [Session.waiting, hqueue, ModelQueue.demands_addAll_of_ne _ hv, List.append_nil]
      rfl
    rw [queued_eq hbefore hafter]
    exact List.nil_sublist _

/-- Where recorders and hooks queue nothing, only what a call asks for is queued, in that
order. -/
theorem sublist_asked (h : e.LeavesQueue) (call : QueueCall) (s : Session) (view : String) :
    (call.queued e view s).Sublist (((call.asked e s).filter (·.1 = view)).map (·.2)) := by
  cases call with
  | add v d =>
    have hasked : (QueueCall.add v d).asked e s = [d].map fun d => (v, d) := rfl
    exact sublist_of_addAll hasked rfl rfl
  | engine c =>
    cases c with
    | init c =>
      have hasked : (QueueCall.engine (.init c)).asked e s = [].map fun d => (view, d) := rfl
      exact sublist_of_addAll hasked rfl (Engine.queues_init c s).queue
    | submit c text => exact sublist_of_addAll rfl rfl (Engine.queues_submit h c text s).queue
    | drain =>
      -- What draining leaves is all that waits afterwards.
      have hnone : queued e view (.engine .drain) s = [] := by
        obtain ⟨-, hqueue⟩ := Engine.demands_drain (e := e) s
        have hafter : (run e (.engine .drain) s).waiting view
            = if s.request.page.view = view then [] else s.waiting view := by
          show (e.drain s).2.request.queue.demands view = _
          rw [hqueue, ModelQueue.demands_clear]
          rfl
        rw [queued, hafter, taken]
        split <;> simp
      rw [hnone]
      exact List.nil_sublist _

end QueueCall

open QueueCall

/-- Every queued demand is served once. Take any calls that render and submit components, queue
demands and drain the queue, on an engine whose recorders and hooks withdraw no demands.

* What waited and what the calls have queued for a view is, in this order, what they have taken
  and what waits at the end. For other views than that of the request nothing is taken.
* Rendering leaves the queue as it is. For every demand that another call asks for, one of its kind
  waits afterwards. Where recorders and hooks queue nothing of their own, nothing else is queued.
* Draining gives one verdict on each target of the demands that wait for the view, in the order of
  the queue, and returns the failures among them. A target fails if it has violations that the
  reviewer does not suppress. A demand without groups has no target.
* Draining leaves nothing for the view and everything for other views. Until it is done again,
  exactly what has been queued since then waits, and if that is nothing, it returns nothing and
  adds no message. -/
theorem queued_served_once {e : Engine} (h : e.GrowsQueue) (calls : List QueueCall)
    (s : Session) :
    let view := s.request.page.view
    let t := runAll e calls s
    (∀ v, s.waiting v ++ queuedAll e v calls s = takenAll e v calls s ++ t.waiting v) ∧
    (∀ v, v ≠ view → takenAll e v calls s = []) ∧
    (∀ c, (e.init c t).2.request.queue = t.request.queue) ∧
    (∀ call : QueueCall, ∀ v d, (v, d) ∈ call.asked e t →
      ∃ w ∈ (call.run e t).waiting v, w.sameAs d = true) ∧
    (e.LeavesQueue → ∀ call : QueueCall, ∀ v,
      (call.queued e v t).Sublist (((call.asked e t).filter (·.1 = v)).map (·.2))) ∧
    (let items := Engine.work e.env t.request.page (t.waiting view);
      (e.drain t).1 = (items.mapM e.verdict t.plugins).1.reduceOption ∧
      (items.mapM e.verdict t.plugins).1.length = items.length) ∧
    (∀ item p, ((e.verdict item p).1.isSome = true ↔
        e.env.constraints.validate item.2 item.1.groups ≠ [] ∧
        Engine.suppresses item.1.identity (e.env.constraints.validate item.2 item.1.groups) p
          = false) ∧
      ∀ failure, (e.verdict item p).1 = some failure →
        failure.identity = item.1.identity ∧ failure.targetType = item.2.typeName ∧
        failure.failure.violations = e.env.constraints.validate item.2 item.1.groups) ∧
    (∀ v, (e.drain t).2.waiting v = if v = view then [] else t.waiting v) ∧
    ∀ between : List QueueCall, (∀ call ∈ between, call.drains = false) →
      let u := runAll e between (e.drain t).2
      u.waiting view = queuedAll e view between (e.drain t).2 ∧
      (queuedAll e view between (e.drain t).2 = [] →
        (e.drain u).1 = [] ∧ (e.drain u).2.request.messages = u.request.messages) := by
  intro view t
  have hview : t.request.page.view = view := view_runAll h calls s
  obtain ⟨hpage, hqueue⟩ := Engine.demands_drain (e := e) t
  have hdrained : ∀ v, (e.drain t).2.waiting v = if v = view then [] else t.waiting v := by
    intro v
    rw [Session.waiting, hqueue, ModelQueue.demands_clear, hview]
    simp only [eq_comm]
    rfl
  refine ⟨fun v => balance_runAll h v calls s, fun v hv => takenAll_of_other h calls hv,
    fun c => (Engine.queues_init c t).queue, fun call v d => waits_of_asked h call t,
    fun hleaves call v => sublist_asked hleaves call t v, ⟨?_, ?_⟩,
    fun item p => ⟨Engine.isSome_verdict item p, fun failure => Engine.eq_of_verdict⟩, hdrained,
    fun between hbetween => ?_⟩
  · have hwork := (Engine.validateWork_verdicts (e := e)
      (Engine.work e.env t.request.page (t.waiting view))
      { t with request := { t.request with queue := t.request.queue.clear view } }).1
    rw [Engine.drain_eq, hview]
    exact hwork
  · exact Engine.length_verdicts _ _
  · intro u
    -- Nothing waits after draining, and nothing is taken before it is done again.
    have hnone : (e.drain t).2.waiting view = [] := by rw [hdrained, if_pos rfl]
    have hbalance : u.waiting view = queuedAll e view between (e.drain t).2 := by
      have hbalance := balance_runAll h view between (e.drain t).2
      rw [hnone, takenAll_of_undrained hbetween, List.nil_append, List.nil_append] at hbalance
      exact hbalance.symm
    have hu : u.request.page.view = view := by
      have hu : u.request.page.view = _ := view_runAll h between (e.drain t).2
      rw [hu, hpage, hview]
    refine ⟨hbalance, fun hempty => Engine.drain_of_empty ?_⟩
    rw [hu]
    exact hbalance.trans hempty

/-- The email of a registration is rendered and submitted, and the application queues a demand
for another view. Draining finds that the account has no password. Then nothing waits for the
view, draining once more finds nothing, and the other demand still waits. -/
theorem queued_served_once_account :
    let e := registrationParts.engine
    let s := Session.start e registrationPage
    let t := runAll e [.engine (.init emailField), .engine (.submit emailField "a@b.at"),
      .add "/print.xhtml" default] s
    (t.waiting "/edit.xhtml").length = 1 ∧
    (e.drain t).1.map (·.targetType) = ["Account"] ∧
    (e.drain t).2.waiting "/edit.xhtml" = [] ∧
    (e.drain (e.drain t).2).1 = [] ∧
    ((e.drain t).2.waiting "/print.xhtml").length = 1 := by
  intro e s t
  have hgrows : e.GrowsQueue := (Engine.leavesQueue_of_unhooked rfl rfl).grows
  obtain ⟨-, -, -, -, -, -, -, hdrained, hnext⟩ :=
    queued_served_once hgrows [.engine (.init emailField), .engine (.submit emailField "a@b.at"),
      .add "/print.xhtml" default] s
  have hagain := (hnext [] (fun _ hcall => by cases hcall)).2 rfl
  refine ⟨by decide +kernel, by decide +kernel, hdrained "/edit.xhtml", hagain.1, ?_⟩
  rw [hdrained "/print.xhtml"]
  decide +kernel

end FieldGuard
