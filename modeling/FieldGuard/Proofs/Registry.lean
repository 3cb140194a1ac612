import FieldGuard.Registry.Basic

/-!
# `FieldGuard.Proofs.Registry`: what a registry finds does not depend on what it has kept

A registry keeps what it has found under a key, and its catalog keeps the calls of
factories. Neither matters for its answers when two things hold: the factories look neither
at serial numbers nor at earlier calls, and sources with one key are proposed the same names.

* `Registry.Steady`: the calls of the catalog do not matter for any source;
* `Registry.Offshoot`: a registry that differs from the first one by its look-ups only,
  so that everything it has kept is what the first one finds;
* `Registry.Offshoot.resolve`: a look-up in an offshoot has the answer of the first
  registry, and leaves an offshoot;
* `Catalog.steady_ofList`: the catalogs of standard plug-ins are steady.
-/

set_option autoImplicit false

namespace FieldGuard

variable {σ α : Type}

/-! ### Factories and catalogs -/

namespace Factory

/-- The factory looks neither at the serial number it is given nor at the calls before. -/
def Steady : Factory α → Prop
  | .shared _ => True
  | .fresh make => ∀ m n, make m = make n
  | .stateful make => ∀ calls calls', make calls = make calls'

/-- The factory makes the given plug-in, whatever came before. -/
def Makes (plugin : α) : Factory α → Prop
  | .shared p => p = plugin
  | .fresh make => ∀ n, make n = .ok plugin
  | .stateful make => ∀ calls, make calls = .ok plugin

theorem steady_always (plugin : α) : (Factory.always plugin).Steady :=
  fun _ _ => rfl

theorem makes_always (plugin : α) : (Factory.always plugin).Makes plugin :=
  fun _ => rfl

/-- The calls before do not matter for what a steady factory answers. -/
theorem Steady.answer_congr {f : Factory α} (h : f.Steady) (calls calls' : List (FactoryCall α)) :
    f.answer calls = f.answer calls' := by
  cases f with
  | shared plugin => rfl
  | fresh make => exact h _ _
  | stateful make => exact h _ _

theorem Makes.answer_eq {f : Factory α} {plugin : α} (h : f.Makes plugin)
    (calls : List (FactoryCall α)) : f.answer calls = .ok plugin := by
  cases f with
  | shared p => exact congrArg Except.ok h
  | fresh make => exact h _
  | stateful make => exact h _

end Factory

namespace Catalog

/-- No factory of the catalog looks at what came before. -/
def Steady (c : Catalog α) : Prop :=
  ∀ name f, c.factories.get? name = some f → f.Steady

/-- The catalog makes the given plug-in under the name. -/
def Makes (c : Catalog α) (name : String) (plugin : α) : Prop :=
  ∃ f, c.factories.get? name = some f ∧ f.Makes plugin

/-- What holds of all factories, and of one more, holds of all when it is registered. -/
theorem forall_register {P : Factory α → Prop} {c : Catalog α}
    (hc : ∀ name f, c.factories.get? name = some f → P f) (name : String) {f : Factory α}
    (hf : P f) : ∀ other g, (c.register name f).factories.get? other = some g → P g := by
  intro other g hg
  rw [Catalog.register, Dict.get?_insert] at hg
  split at hg
  · cases hg
    exact hf
  · exact hc other g hg

theorem Steady.register {c : Catalog α} (hc : c.Steady) (name : String) {f : Factory α}
    (hf : f.Steady) : (c.register name f).Steady :=
  forall_register hc name hf

/-- What holds of the factories of some plug-ins holds of all factories of their catalog. -/
theorem forall_ofList {P : Factory α → Prop} {plugins : List (String × α)}
    (h : ∀ plugin ∈ plugins, P (.always plugin.2)) :
    ∀ name f, (ofList plugins).factories.get? name = some f → P f := by
  suffices hall : ∀ c : Catalog α, (∀ name f, c.factories.get? name = some f → P f) →
      ∀ name f, (plugins.foldl (fun c plugin => c.register plugin.1 (.always plugin.2))
        c).factories.get? name = some f → P f from
    hall {} fun name f hf => by simp at hf
  induction plugins with
  | nil => exact fun c hc => hc
  | cons plugin rest ih =>
    obtain ⟨hplugin, hrest⟩ := List.forall_mem_cons.1 h
    exact fun c hc => ih hrest _ (forall_register hc plugin.1 hplugin)

/-- A catalog that is made from a list of plug-ins is steady. -/
theorem steady_ofList (plugins : List (String × α)) : (ofList plugins).Steady :=
  forall_ofList fun plugin _ => Factory.steady_always plugin.2

/-- The calls before do not matter for what a steady catalog makes. -/
theorem instantiate_congr {c d : Catalog α} (hc : c.Steady) (h : d.factories = c.factories)
    (name : String) : (d.instantiate name).1 = (c.instantiate name).1 := by
  cases hf : c.factories.get? name with
  | none => rw [instantiate_unknown hf, instantiate_unknown (h ▸ hf)]
  | some f =>
    rw [instantiate_known hf, instantiate_known (h ▸ hf)]
    dsimp only
    rw [(hc name f hf).answer_congr d.calls c.calls]

theorem instantiate_of_makes {c d : Catalog α} {name : String} {plugin : α}
    (hc : c.Makes name plugin) (h : d.factories = c.factories) :
    (d.instantiate name).1 = .ok plugin := by
  obtain ⟨f, hf, hmakes⟩ := hc
  rw [instantiate_known (h ▸ hf), hmakes.answer_eq]
  rfl

/-- Trying names leaves the factories alone. -/
theorem factories_firstOf (c : Catalog α) (names : List String) :
    (c.firstOf names).2.factories = c.factories := by
  induction names generalizing c with
  | nil => rfl
  | cons name rest ih =>
    have hstep := c.factories_instantiate name
    rw [firstOf]
    split
    · next plugin c' heq => simpa [heq] using hstep
    · next fault c' heq =>
      rw [ih c']
      simpa [heq] using hstep

/-- The calls before do not matter for the first plug-in that a steady catalog makes. -/
theorem firstOf_congr {c d : Catalog α} (hc : c.Steady) (h : d.factories = c.factories)
    (names : List String) : (d.firstOf names).1 = (c.firstOf names).1 := by
  -- A failed attempt is a call too, so the induction is over catalogs with any calls.
  suffices hall : ∀ a b : Catalog α, a.factories = c.factories → b.factories = c.factories →
      (a.firstOf names).1 = (b.firstOf names).1 from hall d c h rfl
  induction names with
  | nil => exact fun _ _ _ _ => rfl
  | cons name rest ih =>
    intro a b ha hb
    have hsame : (a.instantiate name).1 = (b.instantiate name).1 :=
      (instantiate_congr hc ha name).trans (instantiate_congr hc hb name).symm
    have ha' := a.factories_instantiate name
    have hb' := b.factories_instantiate name
    rw [firstOf, firstOf]
    generalize a.instantiate name = x at hsame ha' ⊢
    generalize b.instantiate name = y at hsame hb' ⊢
    obtain ⟨result, a'⟩ := x
    obtain ⟨_, b'⟩ := y
    cases hsame
    cases result with
    | ok plugin => rfl
    | error fault => exact ih a' b' (ha'.trans ha) (hb'.trans hb)

end Catalog

/-! ### Registries -/

namespace Registry

/-- What the mappers and the catalog lead to, apart from what is kept. -/
def first? (r : Registry σ α) (source : σ) : Option α :=
  (r.catalog.firstOf (r.candidates source)).1

/-- How much the catalog has made before does not matter for what is found. -/
def Steady (r : Registry σ α) : Prop :=
  ∀ source (c : Catalog α), c.factories = r.catalog.factories →
    (c.firstOf (r.candidates source)).1 = r.first? source

theorem steady_of_catalog {r : Registry σ α} (h : r.catalog.Steady) : r.Steady :=
  fun _ _ hc => Catalog.firstOf_congr h hc _

/-- A registry whose first proposal is always one name, under which the catalog makes one
plug-in, finds that plug-in for every source. -/
theorem first?_of_makes {r : Registry σ α} {name : String} {plugin : α}
    (hnames : ∀ source, (r.candidates source).head? = some name)
    (hmakes : r.catalog.Makes name plugin) :
    r.Steady ∧ ∀ source, r.first? source = some plugin := by
  have hfirst : ∀ source (c : Catalog α), c.factories = r.catalog.factories →
      (c.firstOf (r.candidates source)).1 = some plugin := by
    intro source c hc
    obtain ⟨rest, hrest⟩ := List.head?_eq_some_iff.1 (hnames source)
    have hmade := Catalog.instantiate_of_makes hmakes hc
    rw [hrest, Catalog.firstOf]
    split
    · next p c' heq => simpa [heq] using hmade
    · next fault c' heq => simp [heq] at hmade
  exact ⟨fun source c hc => (hfirst source c hc).trans (hfirst source _ rfl).symm,
    fun source => hfirst source _ rfl⟩

/-- What becomes of a registry by look-ups under the keys of their sources: the mappers
and the factories are the same, and what is kept is what the first registry finds. -/
structure Offshoot (keyOf : σ → String) (r₀ r : Registry σ α) : Prop where
  mappers : r.mappers = r₀.mappers
  factories : r.catalog.factories = r₀.catalog.factories
  kept : ∀ source plugin, r.cached? (keyOf source) = some plugin →
    r₀.first? source = some plugin

/-- A registry that has kept nothing is its own offshoot. -/
theorem offshoot_self {keyOf : σ → String} {r : Registry σ α} (h : r.cache = ∅) :
    Offshoot keyOf r r where
  mappers := rfl
  factories := rfl
  kept source plugin hkept := by simp [cached?, h] at hkept

/-- Sources with one key are proposed the same names. -/
def KeyedBy (r : Registry σ α) (keyOf : σ → String) : Prop :=
  ∀ a b, keyOf a = keyOf b → r.candidates a = r.candidates b

/-- Where nothing is kept under the key, a look-up tries the names for its source. What it finds is
kept under the key, and nothing else changes. -/
theorem resolve_of_not_cached {r : Registry σ α} {key : String} (h : r.cached? key = none)
    (source : σ) :
    (r.resolve key source).1 = (r.catalog.firstOf (r.candidates source)).1 ∧
    (r.resolve key source).2.mappers = r.mappers ∧
    (r.resolve key source).2.catalog = (r.catalog.firstOf (r.candidates source)).2 ∧
    ∀ other, (r.resolve key source).2.cached? other
      = if key = other then (r.catalog.firstOf (r.candidates source)).1 else r.cached? other := by
  unfold resolve
  rw [h]
  generalize r.catalog.firstOf (r.candidates source) = found
  obtain ⟨answer, catalog⟩ := found
  cases answer with
  | some plugin => exact ⟨rfl, rfl, rfl, fun other => Dict.get?_insert r.cache key other plugin⟩
  | none =>
    refine ⟨rfl, rfl, rfl, fun other => ?_⟩
    dsimp only
    split
    · next hkey => exact hkey ▸ h
    · rfl

/-- A look-up in an offshoot answers what the first registry finds, and what it leaves is
an offshoot again. -/
theorem Offshoot.resolve {keyOf : σ → String} {r₀ r : Registry σ α} (hr : r₀.Steady)
    (hkeys : r₀.KeyedBy keyOf) (h : Offshoot keyOf r₀ r) (source : σ) :
    (r.resolve (keyOf source) source).1 = r₀.first? source ∧
      Offshoot keyOf r₀ (r.resolve (keyOf source) source).2 := by
  cases hcached : r.cached? (keyOf source) with
  | some plugin =>
    rw [resolve_of_cached hcached]
    exact ⟨(h.kept source plugin hcached).symm, h⟩
  | none =>
    obtain ⟨hanswer, hmappers, hcatalog, hcache⟩ := resolve_of_not_cached hcached source
    -- The catalog is tried with the names that the first registry would try.
    have hnames : r.candidates source = r₀.candidates source := by simp [candidates, h.mappers]
    have hfound : (r.catalog.firstOf (r.candidates source)).1 = r₀.first? source := by
      rw [hnames]
      exact hr source r.catalog h.factories
    refine ⟨hanswer.trans hfound, hmappers.trans h.mappers, ?_, fun other plugin hkept => ?_⟩
    · rw [hcatalog, r.catalog.factories_firstOf, h.factories]
    · rw [hcache] at hkept
      split at hkept
      · next hkey =>
        -- The key may be that of another source; it is proposed the same names.
        rw [← hkept, hfound, first?, first?, hkeys source other hkey]
      · exact h.kept other plugin hkept

end Registry

end FieldGuard
