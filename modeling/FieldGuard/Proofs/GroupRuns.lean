import FieldGuard.Proofs.Groups

/-!
# `FieldGuard.Proofs.GroupRuns`: the groups of a component after any calls

Groups are switched on and off by the application, by rendering and by the processing of
submitted texts, for any component in any view and in any order. The groups that count for a
component are nevertheless read off two lists: the groups that were switched on for it, in the
order in which that happened, and those that were switched off (`standingGroups`). How the two
are interleaved does not matter, and neither does what is done for other components.

A group that is switched off once is switched off for good, as the second list only grows. A
component whose groups are resolved again has all groups of its property in the two lists
already, so it gets the groups that it got before.

* `GroupCall.sets_runAll`: the sets of an owner after any calls are those two lists;
* `groups_over_runs`: the groups of every owner after any calls, that a restricted group never
  comes back, and that resolving again finds the same groups.
-/

set_option autoImplicit false

namespace FieldGuard

/-! ### Groups in the order of their first addition -/

/-- Adding items that may be there already adds the new ones, each when it first comes up. -/
theorem foldl_addUnique_eq (items acc : List String) :
    items.foldl addUnique acc = acc ++ (items.filter fun a => !acc.contains a).eraseDups := by
  induction items generalizing acc with
  | nil => simp
  | cons a rest ih =>
    rw [List.foldl_cons, ih, addUnique]
    cases ha : acc.contains a with
    | true =>
      rw [List.filter_cons, ha]
      rfl
    | false =>
      -- What is new after `a` is what was new before, except for `a` itself.
      have hnew : rest.filter (fun b => !(acc ++ [a]).contains b)
          = (rest.filter fun b => !acc.contains b).filter fun b => !b == a := by
        rw [List.filter_filter]
        refine List.filter_congr fun b _ => ?_
        by_cases hb : b = a <;> simp [hb]
      simp only [Bool.false_eq_true, if_false]
      rw [hnew, List.filter_cons, ha]
      simp [List.eraseDups_cons, List.append_assoc]

/-- The groups that count when some were switched on and some were switched off: those that
were switched on, each where it came first, or else the default group, without all that were
switched off. -/
def standingGroups (on off : List String) : List String :=
  (if on = [] then [defaultGroup] else on.eraseDups).filter fun group => !off.contains group

namespace GroupSets

/-- Where nothing was switched before, the groups that count are read off the two lists. -/
theorem effective_switch (on off : List String) :
    (({} : GroupSets).switch on off).effective = standingGroups on off := by
  have hon : on.foldl addUnique [] = on.eraseDups := by
    rw [foldl_addUnique_eq, List.nil_append]
    exact congrArg List.eraseDups (List.filter_eq_self.2 fun _ _ => rfl)
  have hoff : ∀ group, (off.foldl addUnique []).contains group = off.contains group := by
    intro group
    rw [Bool.eq_iff_iff, List.contains_iff_mem, List.contains_iff_mem, mem_foldl_addUnique]
    simp
  have hempty : on.eraseDups.isEmpty = true ↔ on = [] := by
    cases on with
    | nil => simp
    | cons a rest => simp [List.eraseDups_cons]
  unfold effective standingGroups switch
  simp only [hoff, hon, hempty]

/-- Two rounds of switching are one. -/
theorem switch_switch (s : GroupSets) (on off on' off' : List String) :
    (s.switch on off).switch on' off' = s.switch (on ++ on') (off ++ off') := by
  simp [switch, List.foldl_append]

/-- Switching what is switched already changes nothing. -/
theorem switch_of_subset {s : GroupSets} {on off : List String} (hon : ∀ a ∈ on, a ∈ s.active)
    (hoff : ∀ a ∈ off, a ∈ s.restricted) : s.switch on off = s := by
  rw [switch, foldl_addUnique_of_subset hon, foldl_addUnique_of_subset hoff]

end GroupSets

/-! ### Calls -/

/-- A call that switches groups. -/
inductive GroupCall where
  /-- The application switches a group on for a component in a view. -/
  | add (owner : Owner) (group : String)
  /-- The application switches a group off for a component in a view. -/
  | restrict (owner : Owner) (group : String)
  /-- The groups of a component are resolved, while it is rendered or while a text that was
  submitted for it is processed. -/
  | resolve (identity : Identity) (details : Details) (queues : Bool)

namespace GroupCall

variable (env : Environment)

/-- The request after a call. -/
def run (r : Request) : GroupCall → Request
  | .add owner group => { r with ledger := r.ledger.activate owner group }
  | .restrict owner group => { r with ledger := r.ledger.restrict owner group }
  | .resolve i d queues => (Groups.resolve env i d queues r).2

/-- The request after calls. -/
def runAll (r : Request) (calls : List GroupCall) : Request :=
  calls.foldl (run env) r

/-- Whose groups a call switches. -/
def owner (page : Page) : GroupCall → Owner
  | .add owner _ => owner
  | .restrict owner _ => owner
  | .resolve i _ _ => ⟨page.view, i.clientId⟩

/-- The groups that a call switches on and those that it switches off. -/
def switches (page : Page) : GroupCall → List String × List String
  | .add _ group => ([group], [])
  | .restrict _ group => ([], [group])
  | .resolve _ d _ => Groups.additions env page d

/-- The groups that calls switch on for an owner, one after the other. -/
def switchedOn (page : Page) (owner : Owner) (calls : List GroupCall) : List String :=
  (calls.filter fun call => call.owner page = owner).flatMap fun call => (call.switches env page).1

/-- The groups that calls switch off for an owner, one after the other. -/
def switchedOff (page : Page) (owner : Owner) (calls : List GroupCall) : List String :=
  (calls.filter fun call => call.owner page = owner).flatMap fun call => (call.switches env page).2

variable {env}

theorem page_run (r : Request) (call : GroupCall) : (call.run env r).page = r.page := by
  cases call with
  | add owner group => rfl
  | restrict owner group => rfl
  | resolve i d queues => exact Groups.page_resolve env i d queues r

theorem page_runAll (r : Request) (calls : List GroupCall) : (runAll env r calls).page = r.page := by
  induction calls generalizing r with
  | nil => rfl
  | cons call rest ih => exact (ih (call.run env r)).trans (page_run r call)

/-- A call switches its groups for its owner, and leaves all others alone. -/
theorem sets_run (r : Request) (call : GroupCall) (owner : Owner) :
    (call.run env r).ledger.sets owner
      = if call.owner r.page = owner then
          (r.ledger.sets owner).switch (call.switches env r.page).1 (call.switches env r.page).2
        else r.ledger.sets owner := by
  cases call with
  | add other group => exact GroupLedger.sets_update _ _ _ _
  | restrict other group => exact GroupLedger.sets_update _ _ _ _
  | resolve i d queues => exact Groups.sets_resolve env i d queues r owner

/-- Calls switch, for every owner, the groups that they switch on for it and those that they
switch off. -/
theorem sets_runAll (r : Request) (calls : List GroupCall) (owner : Owner) :
    (runAll env r calls).ledger.sets owner
      = (r.ledger.sets owner).switch (switchedOn env r.page owner calls)
          (switchedOff env r.page owner calls) := by
  induction calls generalizing r with
  | nil => rfl
  | cons call rest ih =>
    have hrest := ih (call.run env r)
    rw [page_run, sets_run] at hrest
    rw [runAll, List.foldl_cons]
    refine hrest.trans ?_
    by_cases hown : call.owner r.page = owner
    · rw [if_pos hown, GroupSets.switch_switch]
      simp [switchedOn, switchedOff, hown]
    · rw [if_neg hown]
      simp [switchedOn, switchedOff, hown]

/-- A call that leaves the groups of a resolved component alone: it is one for another owner,
or it resolves the groups of the component for the same property again. -/
def Spares (call : GroupCall) (page : Page) (owner : Owner) (d : Details) : Prop :=
  call.owner page ≠ owner ∨ ∃ i queues, call = .resolve i d queues

/-- What such calls switch for the owner, the property has switched already. -/
theorem mem_switches_of_spares {page : Page} {owner : Owner} {d : Details}
    {calls : List GroupCall} (h : ∀ call ∈ calls, call.Spares page owner d) {group : String} :
    (group ∈ switchedOn env page owner calls → group ∈ (Groups.additions env page d).1) ∧
    (group ∈ switchedOff env page owner calls → group ∈ (Groups.additions env page d).2) := by
  have hsame : ∀ call ∈ calls.filter fun call => call.owner page = owner,
      call.switches env page = Groups.additions env page d := by
    intro call hcall
    obtain ⟨hmem, hown⟩ := List.mem_filter.1 hcall
    obtain hother | ⟨i, queues, rfl⟩ := h call hmem
    · exact absurd (of_decide_eq_true hown) hother
    · rfl
  constructor
  · intro hgroup
    obtain ⟨call, hcall, hswitch⟩ := List.mem_flatMap.1 hgroup
    rwa [hsame call hcall] at hswitch
  · intro hgroup
    obtain ⟨call, hcall, hswitch⟩ := List.mem_flatMap.1 hgroup
    rwa [hsame call hcall] at hswitch

/-- Calls that spare a resolved component leave its sets as the resolution has left them. -/
theorem sets_runAll_of_spares {i : Identity} {d : Details} {queues : Bool} (r : Request)
    {between : List GroupCall}
    (h : ∀ call ∈ between, call.Spares r.page (r.owner i.clientId) d) :
    (runAll env (Groups.resolve env i d queues r).2 between).ledger.sets (r.owner i.clientId)
      = (Groups.resolve env i d queues r).2.ledger.sets (r.owner i.clientId) := by
  have hsets := Groups.sets_resolve env i d queues r (r.owner i.clientId)
  rw [if_pos rfl] at hsets
  rw [sets_runAll, Groups.page_resolve, hsets]
  refine GroupSets.switch_of_subset ?_ ?_
  · intro group hgroup
    exact mem_foldl_addUnique.2 (.inr ((mem_switches_of_spares h).1 hgroup))
  · intro group hgroup
    exact mem_foldl_addUnique.2 (.inr ((mem_switches_of_spares h).2 hgroup))

end GroupCall

open GroupCall

/-- The groups after any calls that add, restrict and resolve groups, for any components in any
views, in a request that starts without groups.

* For every owner those groups count that the calls have added for it, each where it was added
  first, or the default group if none was added, without all that the calls have restricted for
  it.
* A group that was restricted for an owner does not count for it again, whatever calls follow.
* When the groups of a component are resolved again for the same property, with or without
  queueing, the same groups are found; calls for other owners may come in between, and any
  resolutions of the component itself. -/
theorem groups_over_runs (env : Environment) (view : String) (scope : Scope)
    (calls : List GroupCall) :
    let page : Page := ⟨view, scope⟩
    let r := GroupCall.runAll env (.new view scope) calls
    (∀ owner, r.ledger.groups owner
      = standingGroups (switchedOn env page owner calls) (switchedOff env page owner calls)) ∧
    (∀ owner, ∀ group ∈ switchedOff env page owner calls, ∀ more,
      group ∉ (runAll env r more).ledger.groups owner) ∧
    (∀ i d queues queues' between,
      (∀ call ∈ between, call.Spares page ⟨view, i.clientId⟩ d) →
      let first := Groups.resolve env i d queues r
      (Groups.resolve env i d queues' (runAll env first.2 between)).1 = first.1) := by
  intro page r
  have hpage : r.page = page := page_runAll _ calls
  -- The closed form holds of all calls so far, also of those that are still to come.
  have hgroups : ∀ (calls : List GroupCall) (owner : Owner),
      (runAll env (.new view scope) calls).ledger.groups owner
        = standingGroups (switchedOn env page owner calls) (switchedOff env page owner calls) := by
    intro calls owner
    have hsets : (runAll env (.new view scope) calls).ledger.sets owner
        = ({} : GroupSets).switch (switchedOn env page owner calls)
            (switchedOff env page owner calls) := sets_runAll (.new view scope) calls owner
    rw [GroupLedger.groups, hsets, GroupSets.effective_switch]
  refine ⟨hgroups calls, ?_, ?_⟩
  · intro owner group hgroup more
    have hrun : runAll env r more = runAll env (.new view scope) (calls ++ more) :=
      List.foldl_append.symm
    have hoff : group ∈ switchedOff env page owner (calls ++ more) := by
      rw [switchedOff, List.filter_append, List.flatMap_append]
      exact List.mem_append_left _ hgroup
    rw [hrun, hgroups]
    simp [standingGroups, hoff]
  · intro i d queues queues' between hspares first
    have howner : r.owner i.clientId = ⟨view, i.clientId⟩ := by rw [Request.owner, hpage]
    have hagain : (runAll env first.2 between).page = r.page :=
      (page_runAll _ between).trans (Groups.page_resolve env i d queues r)
    refine Groups.resolve_again hagain ?_
    rw [Request.owner, hagain]
    exact sets_runAll_of_spares r (by rwa [hpage, howner])

/-! ### A group that is restricted before and after it is added -/

/-- The code of a product is validated as part of an order, and never as that of a draft. -/
def orderEnvironment : Environment where
  types := .ofTypes
    [{ name := "Product", properties := [(PropertyDecl.new "code").onField
        (.controller { useGroups := ["Order"], restrictGroups := ["Draft"] })] }]

/-- The application adds drafts for the code and for the name of a product, before the groups of
the code are resolved and after that. For the name they count. For the code they do not, whether
they come first or last, and resolving its groups once more finds those of an order only. -/
theorem groups_over_runs_draft :
    let product : Bean := Record.ofType "Product"
    let scope : Scope := Dict.ofList [("product", .object product)]
    let code : Identity := ⟨"form:code", "HtmlInputText", none⟩
    let d : Details := ⟨"product.code", some product, "code"⟩
    let calls : List GroupCall :=
      [.add ⟨"/edit", "form:code"⟩ "Draft", .add ⟨"/edit", "form:name"⟩ "Draft",
        .resolve code d false]
    let r := GroupCall.runAll orderEnvironment (.new "/edit" scope) calls
    let late : List GroupCall := [.add ⟨"/edit", "form:code"⟩ "Draft"]
    let between : List GroupCall := [.add ⟨"/edit", "form:name"⟩ "Order", .resolve code d false]
    let first := Groups.resolve orderEnvironment code d false r
    r.ledger.groups ⟨"/edit", "form:code"⟩ = ["Order"] ∧
    r.ledger.groups ⟨"/edit", "form:name"⟩ = ["Draft"] ∧
    "Draft" ∉ (runAll orderEnvironment r late).ledger.groups ⟨"/edit", "form:code"⟩ ∧
    (Groups.resolve orderEnvironment code d true (runAll orderEnvironment first.2 between)).1
      = first.1 := by
  intro product scope code d calls r late between first
  obtain ⟨hgroups, hrestricted, hagain⟩ :=
    groups_over_runs orderEnvironment "/edit" scope calls
  refine ⟨?_, ?_, ?_, ?_⟩
  · exact (hgroups ⟨"/edit", "form:code"⟩).trans (by decide +kernel)
  · exact (hgroups ⟨"/edit", "form:name"⟩).trans (by decide +kernel)
  · exact hrestricted ⟨"/edit", "form:code"⟩ "Draft" (by decide +kernel) late
  · refine hagain code d false true between fun call hcall => ?_
    -- The name of the product is another component; the resolution is that of the code.
    rcases List.mem_cons.1 hcall with rfl | hcall
    · exact .inl (by decide +kernel)
    · exact .inr ⟨code, false, List.mem_singleton.1 hcall⟩

end FieldGuard
