import FieldGuard.Registry.Basic

/-!
# `FieldGuard.Proofs.RegistryRuns`: what a registry keeps over any steps

A registry changes between look-ups: mappers are added before or after the others,
factories are registered and replaced, plug-ins are made by name. Keys and sources are
independent arguments of a look-up, and a factory may answer one call in one way and the
next one in another.

The calls of factories stand in the catalog with their answers, so that a look-up can be
held to the calls that it makes. `Catalog.Search` says which calls these are: the factories
of the proposed names that have one, in the order of the names, until one succeeds. Every
call is answered as its factory answers after the calls before (`Catalog.Genuine`).

* `Catalog.search_firstOf`: trying names makes the calls of a search;
* `Registry.resolve_of_uncached`: what a look-up does under a key that nothing is kept for;
* `Registry.cached_step`, `Registry.cached_after`: what is kept stays through every step, and
  so through every run;
* `resolve_over_runs`: what is found once is found again without a call, whatever happens in
  between, and what is not found leaves nothing behind.
-/

set_option autoImplicit false

namespace FieldGuard

variable {σ α : Type}

/-! ### Calls -/

namespace Catalog

/-- Each call is one of a factory of the catalog, answered as the calls of the catalog and
the ones before it in the list have left the factory. -/
def Genuine (c : Catalog α) (made : List (FactoryCall α)) : Prop :=
  ∀ before call rest, made = before ++ call :: rest →
    ∃ f, c.factories.get? call.name = some f ∧ call.answer = f.answer (c.calls ++ before)

/-- The calls that a search for the first plug-in among some names makes: those of the names
that have a factory, in their order, until the first one that succeeds. -/
inductive Search (c : Catalog α) (names : List String) :
    Option α → List (FactoryCall α) → Prop where
  /-- The last call succeeds, all others have failed. Names after it are not tried. -/
  | found (failed : List (FactoryCall α)) (last : FactoryCall α) (plugin : α)
      (untried : List String)
      (htried : names.filter c.contains = failed.map (·.name) ++ last.name :: untried)
      (hfailed : ∀ call ∈ failed, call.succeeds = false) (hlast : last.answer = .ok plugin) :
      Search c names (some plugin) (failed ++ [last])
  /-- All names are tried, and all calls have failed. -/
  | missed (failed : List (FactoryCall α))
      (htried : names.filter c.contains = failed.map (·.name))
      (hfailed : ∀ call ∈ failed, call.succeeds = false) :
      Search c names none failed

/-- The catalog after more calls. -/
def afterCalls (c : Catalog α) (made : List (FactoryCall α)) : Catalog α :=
  { c with calls := c.calls ++ made }

theorem afterCalls_afterCalls (c : Catalog α) (made more : List (FactoryCall α)) :
    (c.afterCalls made).afterCalls more = c.afterCalls (made ++ more) := by
  simp [afterCalls, List.append_assoc]

theorem genuine_nil (c : Catalog α) : c.Genuine [] := by
  intro before call rest h
  simp at h

/-- A genuine call, and genuine calls after it. -/
theorem Genuine.cons {c : Catalog α} {name : String} {f : Factory α}
    (hf : c.factories.get? name = some f) {made : List (FactoryCall α)}
    (h : (c.afterCalls [c.callOf name f]).Genuine made) :
    c.Genuine (c.callOf name f :: made) := by
  intro before call rest hsplit
  cases before with
  | nil =>
    cases hsplit
    exact ⟨f, hf, by simp [callOf]⟩
  | cons first before =>
    obtain ⟨hfirst, hrest⟩ := List.cons.inj hsplit
    obtain ⟨g, hg, hanswer⟩ := h before call rest hrest
    refine ⟨g, hg, ?_⟩
    rw [hanswer, ← hfirst]
    simp [afterCalls]

/-- A name without a factory is passed over. -/
theorem Search.skip {c : Catalog α} {name : String} (hname : c.contains name = false)
    {names : List String} {answer : Option α} {made : List (FactoryCall α)}
    (h : c.Search names answer made) : c.Search (name :: names) answer made := by
  have hfilter : (name :: names).filter c.contains = names.filter c.contains := by
    simp [hname]
  cases h with
  | found failed last plugin untried htried hfailed hlast =>
    exact .found failed last plugin untried (hfilter.trans htried) hfailed hlast
  | missed failed htried hfailed => exact .missed made (hfilter.trans htried) hfailed

/-- A call that fails comes before all calls for the names that follow. -/
theorem Search.retry {c : Catalog α} {call : FactoryCall α} (hname : c.contains call.name = true)
    (hfails : call.succeeds = false) {names : List String} {answer : Option α}
    {made : List (FactoryCall α)} (h : (c.afterCalls [call]).Search names answer made) :
    c.Search (call.name :: names) answer (call :: made) := by
  have hfilter : (call.name :: names).filter c.contains = call.name :: names.filter c.contains := by
    simp [hname]
  -- The factories are the same after the call, so the same names have one.
  cases h with
  | found failed last plugin untried htried hfailed hlast =>
    refine .found (call :: failed) last plugin untried ?_ ?_ hlast
    · rw [hfilter]
      exact congrArg (call.name :: ·) htried
    · exact List.forall_mem_cons.2 ⟨hfails, hfailed⟩
  | missed failed htried hfailed =>
    refine .missed (call :: made) ?_ (List.forall_mem_cons.2 ⟨hfails, hfailed⟩)
    rw [hfilter]
    exact congrArg (call.name :: ·) htried

/-- Trying names makes the calls of a search and does nothing else. -/
theorem search_firstOf (c : Catalog α) (names : List String) :
    ∃ made, c.Search names (c.firstOf names).1 made ∧ c.Genuine made ∧
      (c.firstOf names).2 = c.afterCalls made := by
  induction names generalizing c with
  | nil => exact ⟨[], .missed [] rfl (by simp), c.genuine_nil, by simp [firstOf, afterCalls]⟩
  | cons name rest ih =>
    cases hf : c.factories.get? name with
    | none =>
      have hname : c.contains name = false := by simp [contains, Dict.contains, hf]
      rw [firstOf, instantiate_unknown hf]
      obtain ⟨made, hsearch, hgenuine, hafter⟩ := ih c
      exact ⟨made, hsearch.skip hname, hgenuine, hafter⟩
    | some f =>
      have hname : c.contains name = true := by simp [contains, Dict.contains, hf]
      rw [firstOf, instantiate_known hf]
      cases hanswer : f.answer c.calls with
      | ok plugin =>
        refine ⟨[c.callOf name f], ?_, (genuine_nil _).cons hf, rfl⟩
        exact .found [] (c.callOf name f) plugin (rest.filter c.contains) (by simp [hname, callOf])
          (by simp) hanswer
      | error reason =>
        obtain ⟨made, hsearch, hgenuine, hafter⟩ := ih (c.afterCalls [c.callOf name f])
        have hfails : (c.callOf name f).succeeds = false := by
          simp [FactoryCall.succeeds, callOf, hanswer, Except.isOk, Except.toBool]
        refine ⟨c.callOf name f :: made, hsearch.retry hname hfails, hgenuine.cons hf, ?_⟩
        exact hafter.trans (afterCalls_afterCalls _ _ _)

end Catalog

/-! ### Steps -/

namespace Registry

/-- A step that concerns a registry. -/
inductive Step (σ α : Type) where
  /-- One more mapper, asked after all others. -/
  | addMapper (mapper : Mapper σ)
  /-- One more mapper, asked before all others. -/
  | addMapperFirst (mapper : Mapper σ)
  /-- A factory under a name, in place of one that is there. -/
  | register (name : String) (factory : Factory α)
  | resolve (key : String) (source : σ)
  /-- A plug-in made by its name, past the mappers and without keeping it. -/
  | instantiate (name : String)

/-- The registry after a step. -/
def step (r : Registry σ α) : Step σ α → Registry σ α
  | .addMapper mapper => r.addMapper mapper
  | .addMapperFirst mapper => r.addMapperFirst mapper
  | .register name factory => { r with catalog := r.catalog.register name factory }
  | .resolve key source => (r.resolve key source).2
  | .instantiate name => { r with catalog := (r.catalog.instantiate name).2 }

/-- The registry after steps. -/
def after (r : Registry σ α) (steps : List (Step σ α)) : Registry σ α :=
  steps.foldl step r

/-- The registry after a search under a key: the calls are made, and what was found is kept. -/
def afterSearch (r : Registry σ α) (key : String) (answer : Option α)
    (made : List (FactoryCall α)) : Registry σ α :=
  { r with
    catalog := r.catalog.afterCalls made
    cache := match answer with
      | some plugin => r.cache.insert key plugin
      | none => r.cache }

/-- Where nothing is kept, a look-up searches among the names that are proposed for its
source, and keeps what it finds. -/
theorem resolve_of_uncached {r : Registry σ α} {key : String} (h : r.cached? key = none)
    (source : σ) :
    ∃ answer made, r.catalog.Search (r.candidates source) answer made ∧
      r.catalog.Genuine made ∧ r.resolve key source = (answer, r.afterSearch key answer made) := by
  obtain ⟨made, hsearch, hgenuine, hafter⟩ := r.catalog.search_firstOf (r.candidates source)
  refine ⟨_, made, hsearch, hgenuine, ?_⟩
  unfold resolve
  rw [h]
  generalize r.catalog.firstOf (r.candidates source) = x at hafter
  obtain ⟨answer, catalog⟩ := x
  cases hafter
  cases answer <;> rfl

/-- Only the key of a search is concerned by what it has found. -/
theorem cached_afterSearch {r : Registry σ α} {key : String} (h : r.cached? key = none)
    (answer : Option α) (made : List (FactoryCall α)) (other : String) :
    (r.afterSearch key answer made).cached? other
      = if key = other then answer else r.cached? other := by
  cases answer with
  | none =>
    show r.cached? other = _
    split
    · next hkey => rw [← hkey, h]
    · rfl
  | some plugin => exact Dict.get?_insert r.cache key other plugin

/-- What is kept stays through every step. -/
theorem cached_step {r : Registry σ α} {key : String} {plugin : α}
    (h : r.cached? key = some plugin) (s : Step σ α) : (r.step s).cached? key = some plugin := by
  cases s with
  | addMapper mapper => exact h
  | addMapperFirst mapper => exact h
  | register name factory => exact h
  | instantiate name => exact h
  | resolve other source =>
    show (r.resolve other source).2.cached? key = some plugin
    cases hother : r.cached? other with
    | some kept => rw [resolve_of_cached hother, h]
    | none =>
      -- Only a key that nothing is kept for is written, and that is another one.
      have hne : other ≠ key := by
        rintro rfl
        rw [hother] at h
        cases h
      obtain ⟨answer, made, -, -, hresolve⟩ := resolve_of_uncached hother source
      rw [hresolve, cached_afterSearch hother, if_neg hne, h]

/-- What is kept stays through every run. -/
theorem cached_after {r : Registry σ α} {key : String} {plugin : α}
    (h : r.cached? key = some plugin) (steps : List (Step σ α)) :
    (r.after steps).cached? key = some plugin := by
  induction steps generalizing r with
  | nil => exact h
  | cons s rest ih => exact ih (cached_step h s)

end Registry

/-- Look-ups in a registry after any steps. Mappers and factories may be any, and a factory may
answer differently from call to call.

* What a look-up under a key has answered, every later look-up under the key answers again,
  for any source and after any further steps. It changes nothing, so it makes no call.
* Where nothing is kept under the key, the calls are those of a search among the names
  proposed for the source. The answer is what the search finds. It is kept under the key and
  under no other one; if there is none, all that is kept stays as it is. Mappers and factories
  stay in any case. -/
theorem resolve_over_runs (r₀ : Registry σ α) (steps : List (Registry.Step σ α)) (key : String)
    (source : σ) :
    let r := r₀.after steps
    let answer := (r.resolve key source).1
    let r' := (r.resolve key source).2
    (∀ plugin, answer = some plugin → ∀ (later : List (Registry.Step σ α)) (source' : σ),
      (r'.after later).resolve key source' = (some plugin, r'.after later)) ∧
    (r.cached? key = none →
      (∃ made, r.catalog.Search (r.candidates source) answer made ∧ r.catalog.Genuine made ∧
        r'.catalog.calls = r.catalog.calls ++ made) ∧
      r'.cached? key = answer ∧ (∀ other, other ≠ key → r'.cached? other = r.cached? other) ∧
      (answer = none → r'.cache = r.cache) ∧
      r'.mappers = r.mappers ∧ r'.catalog.factories = r.catalog.factories) := by
  intro r answer r'
  constructor
  · intro plugin hanswer later source'
    exact Registry.resolve_of_cached (Registry.cached_after (Registry.cached_resolve hanswer) later)
      source'
  · intro huncached
    obtain ⟨found, made, hsearch, hgenuine, hresolve⟩ :=
      Registry.resolve_of_uncached huncached source
    have hanswer : answer = found := congrArg Prod.fst hresolve
    have hafter : r' = r.afterSearch key found made := congrArg Prod.snd hresolve
    rw [hanswer, hafter]
    refine ⟨⟨made, hsearch, hgenuine, rfl⟩, ?_, ?_, ?_, rfl, rfl⟩
    · rw [Registry.cached_afterSearch huncached, if_pos rfl]
    · intro other hother
      rw [Registry.cached_afterSearch huncached, if_neg (Ne.symm hother)]
    · rintro rfl
      rfl

/-! ### A factory that is not ready at once -/

/-- Three names are proposed for every source. The first one has no factory, the second one has
one that is broken, and the third one has one that fails when it is called for the first time.
The look-up at the end finds nothing. -/
def waitingSteps : List (Registry.Step String (String × Nat)) :=
  [.addMapper (.fixed "first"), .addMapper (.fixed "second"), .addMapper (.fixed "third"),
    .register "second" (.never "constructor failed"),
    .register "third" (.stateful fun calls =>
      if calls.any (·.name == "third") then .ok ("third", 1) else .error "not ready"),
    .resolve "key" "a"]

/-- The second look-up under the key finds what the first one has missed: both call the second
and the third factory. Later a fourth factory takes precedence, but the key keeps its plug-in. -/
theorem resolve_over_runs_waiting :
    let r := Registry.after { role := "item" } waitingSteps
    let r' := (r.resolve "key" "b").2
    let later : List (Registry.Step String (String × Nat)) :=
      [.addMapperFirst (.fixed "fourth"), .register "fourth" (.shared ("fourth", 0))]
    r.cached? "key" = none ∧ (r.resolve "key" "b").1 = some ("third", 1) ∧
    (r'.after later).resolve "key" "c" = (some ("third", 1), r'.after later) ∧
    r'.cached? "key" = some ("third", 1) ∧
    r'.catalog.calls.map (·.name) = ["second", "third", "second", "third"] := by
  intro r r' later
  have huncached : r.cached? "key" = none := by decide +kernel
  have hanswer : (r.resolve "key" "b").1 = some ("third", 1) := by decide +kernel
  obtain ⟨hkept, hsearch⟩ :=
    resolve_over_runs ({ role := "item" } : Registry String (String × Nat)) waitingSteps "key" "b"
  obtain ⟨-, hcached, -⟩ := hsearch huncached
  exact ⟨huncached, hanswer, hkept _ hanswer later "c", hcached.trans hanswer, by decide +kernel⟩

end FieldGuard
