import FieldGuard.Engine.Groups

/-!
# `FieldGuard.Proofs.Groups`: what resolving the groups of a component does

A resolution switches groups on and off for one owner. Which ones depends on the page and
on the property only (`Groups.additions`), so that a resolution is one operation on the
two sets of its owner.

* `GroupLedger.sets_switchAll`: what a resolution does to the sets of every owner;
* `GroupSets.switch_idem`: switching the same groups again changes nothing;
* `Groups.resolve_eq`: the groups and the request after a resolution, in those terms;
* `Groups.resolve_congr`, `Groups.resolve_again`: the groups depend on the page and on the
  sets of the owner only, and resolving once more finds the same groups.
-/

set_option autoImplicit false

namespace FieldGuard

/-! ### Switching groups -/

theorem foldl_addUnique_of_subset {items acc : List String} (h : ∀ a ∈ items, a ∈ acc) :
    items.foldl addUnique acc = acc := by
  induction items with
  | nil => rfl
  | cons a rest ih =>
    have ha : addUnique acc a = acc := by simp [addUnique, h a List.mem_cons_self]
    rw [List.foldl_cons, ha]
    exact ih fun b hb => h b (List.mem_cons_of_mem _ hb)

theorem mem_foldl_addUnique {items acc : List String} {a : String} :
    a ∈ items.foldl addUnique acc ↔ a ∈ acc ∨ a ∈ items := by
  induction items generalizing acc with
  | nil => simp
  | cons b rest ih =>
    rw [List.foldl_cons, ih, mem_addUnique, List.mem_cons]
    exact or_assoc

namespace GroupSets

/-- The sets with some groups switched on and then some switched off. -/
def switch (s : GroupSets) (on off : List String) : GroupSets :=
  ⟨on.foldl addUnique s.active, off.foldl addUnique s.restricted⟩

theorem foldl_activate (s : GroupSets) (groups : List String) :
    groups.foldl activate s = ⟨groups.foldl addUnique s.active, s.restricted⟩ := by
  induction groups generalizing s with
  | nil => rfl
  | cons group rest ih => exact ih (s.activate group)

theorem foldl_restrict (s : GroupSets) (groups : List String) :
    groups.foldl restrict s = ⟨s.active, groups.foldl addUnique s.restricted⟩ := by
  induction groups generalizing s with
  | nil => rfl
  | cons group rest ih => exact ih (s.restrict group)

/-- Switching the same groups again changes nothing. -/
theorem switch_idem (s : GroupSets) (on off : List String) :
    (s.switch on off).switch on off = s.switch on off := by
  simp only [switch]
  -- Each group of the second round is in its set since the first one.
  rw [foldl_addUnique_of_subset fun a ha => mem_foldl_addUnique.2 (.inr ha),
    foldl_addUnique_of_subset fun a ha => mem_foldl_addUnique.2 (.inr ha)]

end GroupSets

namespace GroupLedger

/-- The ledger with some groups switched on for an owner and then some switched off. -/
def switchAll (l : GroupLedger) (owner : Owner) (on off : List String) : GroupLedger :=
  (l.activateAll owner on).restrictAll owner off

theorem sets_foldl_update (l : GroupLedger) (owner other : Owner)
    (f : GroupSets → String → GroupSets) (groups : List String) :
    (groups.foldl (fun l group => l.update owner (f · group)) l).sets other
      = if owner = other then groups.foldl f (l.sets other) else l.sets other := by
  induction groups generalizing l with
  | nil => simp
  | cons group rest ih =>
    rw [List.foldl_cons, ih, sets_update]
    by_cases h : owner = other <;> simp [h]

/-- Only the sets of the owner change, and they do as if they were alone. -/
theorem sets_switchAll (l : GroupLedger) (owner other : Owner) (on off : List String) :
    (l.switchAll owner on off).sets other
      = if owner = other then (l.sets other).switch on off else l.sets other := by
  -- Switching on leaves the restricted groups alone, and switching off the active ones.
  have hon : (l.activateAll owner on).sets other
      = if owner = other then on.foldl GroupSets.activate (l.sets other) else l.sets other :=
    sets_foldl_update l owner other GroupSets.activate on
  have hoff : (l.switchAll owner on off).sets other
      = if owner = other then off.foldl GroupSets.restrict ((l.activateAll owner on).sets other)
        else (l.activateAll owner on).sets other :=
    sets_foldl_update (l.activateAll owner on) owner other GroupSets.restrict off
  rw [hoff, hon]
  by_cases h : owner = other
  · simp [h, GroupSets.foldl_activate, GroupSets.foldl_restrict, GroupSets.switch]
  · simp [h]

end GroupLedger

/-! ### Resolutions -/

namespace Groups

/-- The groups that a property switches on and those that it switches off. -/
def additions (env : Environment) (page : Page) (d : Details) : List String × List String :=
  if env.settings.usesGroupSequences then ((d.baseType?.bind (sequence? env.types)).getD [], [])
  else
    let found := switches (scan env page d)
    (found.flatMap (·.useGroups), found.flatMap (·.restrictGroups))

/-- The queue after a resolution. -/
def queueAfter (env : Environment) (i : Identity) (d : Details) (queues : Bool) (r : Request) :
    ModelQueue :=
  if queues && !env.settings.usesGroupSequences then
    r.queue.addAll r.page.view (demands env r.page i d (scan env r.page d))
  else r.queue

/-- The request after a resolution: the groups of the property are switched for the
component, and the queue may have grown. -/
def requestAfter (env : Environment) (i : Identity) (d : Details) (queues : Bool) (r : Request) :
    Request :=
  { r with
    ledger := r.ledger.switchAll (r.owner i.clientId) (additions env r.page d).1
      (additions env r.page d).2
    queue := queueAfter env i d queues r }

/-- A resolution yields the groups that count once the groups of the property are switched
for the component. -/
theorem resolve_eq (env : Environment) (i : Identity) (d : Details) (queues : Bool) (r : Request) :
    resolve env i d queues r
      = (((r.ledger.sets (r.owner i.clientId)).switch (additions env r.page d).1
            (additions env r.page d).2).effective,
          requestAfter env i d queues r) := by
  -- A group sequence restricts nothing and queues nothing; otherwise both ways agree.
  have hrequest : (if env.settings.usesGroupSequences then applySequence env i d r
      else applyControllers env i d queues r) = requestAfter env i d queues r := by
    cases h : env.settings.usesGroupSequences <;> cases queues <;>
      simp [applySequence, applyControllers, requestAfter, queueAfter, additions, h,
        GroupLedger.switchAll, GroupLedger.restrictAll]
  rw [resolve, hrequest]
  refine Prod.ext ?_ rfl
  show ((r.ledger.switchAll (r.owner i.clientId) (additions env r.page d).1
    (additions env r.page d).2).sets (r.owner i.clientId)).effective = _
  rw [GroupLedger.sets_switchAll, if_pos rfl]

theorem page_resolve (env : Environment) (i : Identity) (d : Details) (queues : Bool)
    (r : Request) : (resolve env i d queues r).2.page = r.page := by
  rw [resolve_eq]
  rfl

theorem messages_resolve (env : Environment) (i : Identity) (d : Details) (queues : Bool)
    (r : Request) : (resolve env i d queues r).2.messages = r.messages := by
  rw [resolve_eq]
  rfl

/-- A resolution changes the sets of its own component only. -/
theorem sets_resolve (env : Environment) (i : Identity) (d : Details) (queues : Bool)
    (r : Request) (other : Owner) :
    (resolve env i d queues r).2.ledger.sets other
      = if r.owner i.clientId = other then
          (r.ledger.sets other).switch (additions env r.page d).1 (additions env r.page d).2
        else r.ledger.sets other := by
  rw [resolve_eq]
  exact GroupLedger.sets_switchAll _ _ _ _ _

/-- The groups that a resolution yields depend on the page and on the sets of the component
only; it does not matter whether it queues model validations. -/
theorem resolve_congr {env : Environment} {i : Identity} {d : Details} {queues queues' : Bool}
    {r r' : Request} (hpage : r'.page = r.page)
    (hsets : r'.ledger.sets (r'.owner i.clientId) = r.ledger.sets (r.owner i.clientId)) :
    (resolve env i d queues' r').1 = (resolve env i d queues r).1 := by
  rw [resolve_eq, resolve_eq, hpage, hsets]

/-- Resolving once more finds the same groups, also when something else has happened in
between that left the page and the sets of the component alone. -/
theorem resolve_again {env : Environment} {i : Identity} {d : Details} {queues queues' : Bool}
    {r r' : Request} (hpage : r'.page = r.page)
    (hsets : r'.ledger.sets (r'.owner i.clientId)
      = (resolve env i d queues r).2.ledger.sets (r.owner i.clientId)) :
    (resolve env i d queues' r').1 = (resolve env i d queues r).1 := by
  rw [sets_resolve, if_pos rfl] at hsets
  rw [resolve_eq, resolve_eq, hpage, hsets, GroupSets.switch_idem]

end Groups

end FieldGuard
