import FieldGuard.Proofs.Keeps
import FieldGuard.Proofs.Registry
import Mathlib.Data.List.Basic

/-!
# `FieldGuard.Proofs.Precedence`: look-ups follow the order of the mappers, whatever was kept

The name of a plug-in is proposed by the custom mappers, the settings, the convention of the base
package and the standard table, in this order. Names may have no factory, or one that always fails;
the plug-in is an instance of the first name that has one that succeeds. Registries keep what they
have found, and strategies and transformers are kept under their own kind of key. Whatever was
looked up before, the order stays the same.

A strategy is kept under the annotation key, which is all that its mappers see. A transformer is
kept under the name of the strategy, while custom mappers see the strategy itself. If they tell
strategies of one name apart, the transformer is the one for a strategy of that name.

* `Catalog.IsFirstOf`: an answer is an instance of the first name that can be made;
* `Catalog.isFirstOf_firstOf`: trying names leads to such an answer;
* `Registry.Derived`: what a registry has kept are such answers;
* `Registry.Derived.resolve`: a look-up has such an answer, and keeps nothing else;
* `lookups_follow_precedence`: the strategy for a key and the transformer for a strategy after any
  look-ups.
-/

set_option autoImplicit false

namespace FieldGuard

variable {σ α : Type}

/-! ### Names that can be made -/

/-- The factory always succeeds, or always fails. What it makes may differ from call to call. -/
def Factory.Determined (f : Factory α) : Prop :=
  ∃ succeeds, ∀ calls, (f.answer calls).isOk = succeeds

theorem Factory.Steady.determined {f : Factory α} (h : f.Steady) : f.Determined :=
  ⟨(f.answer []).isOk, fun calls => by rw [h.answer_congr calls []]⟩

namespace Catalog

/-- Every factory of the catalog always succeeds, or always fails. -/
def Determined (c : Catalog α) : Prop :=
  ∀ name f, c.factories.get? name = some f → f.Determined

/-- Whether a plug-in can be made under the name. -/
def canMake (c : Catalog α) (name : String) : Bool :=
  (c.instantiate name).1.isOk

/-- The plug-in is an instance that the factory of the name makes. -/
def Instance (c : Catalog α) (name : String) (plugin : α) : Prop :=
  ∃ f calls, c.factories.get? name = some f ∧ f.answer calls = .ok plugin

/-- The answer is an instance of the first name that can be made, and nothing if none can. -/
def IsFirstOf (c : Catalog α) (names : List String) (answer : Option α) : Prop :=
  match names.find? c.canMake with
  | none => answer = none
  | some name => ∃ plugin, answer = some plugin ∧ c.Instance name plugin

variable {c d : Catalog α} {name : String} {plugin : α}

theorem Steady.determined (h : c.Steady) : c.Determined :=
  fun name f hf => (h name f hf).determined

theorem Determined.register (hc : c.Determined) (name : String) {f : Factory α}
    (hf : f.Determined) : (c.register name f).Determined :=
  forall_register hc name hf

/-- The calls before do not matter for the names that can be made. -/
theorem canMake_congr (hc : c.Determined) (h : d.factories = c.factories) (name : String) :
    d.canMake name = c.canMake name := by
  have hmade : ∀ (f : Factory α) (calls : List (FactoryCall α)),
      ((f.answer calls).mapError (Fault.instantiation name)).isOk = (f.answer calls).isOk := by
    intro f calls
    cases f.answer calls <;> rfl
  unfold canMake
  cases hf : c.factories.get? name with
  | none => rw [instantiate_unknown hf, instantiate_unknown (h ▸ hf)]
  | some f =>
    obtain ⟨succeeds, hsucceeds⟩ := hc name f hf
    rw [instantiate_known hf, instantiate_known (h ▸ hf)]
    dsimp only
    rw [hmade, hmade, hsucceeds, hsucceeds]

theorem instance_of_instantiate (h : d.factories = c.factories)
    (hmade : (d.instantiate name).1 = .ok plugin) : c.Instance name plugin := by
  cases hf : c.factories.get? name with
  | none =>
    rw [instantiate_unknown (h ▸ hf)] at hmade
    cases hmade
  | some f =>
    rw [instantiate_known (h ▸ hf)] at hmade
    refine ⟨f, d.calls, hf, ?_⟩
    cases hanswer : f.answer d.calls with
    | ok p =>
      rw [hanswer] at hmade
      cases hmade
      rfl
    | error reason =>
      rw [hanswer] at hmade
      cases hmade

/-- Trying names leads to an instance of the first one that can be made, whatever was called
before. -/
theorem isFirstOf_firstOf (hc : c.Determined) (h : d.factories = c.factories)
    (names : List String) : c.IsFirstOf names (d.firstOf names).1 := by
  induction names generalizing d with
  | nil => rfl
  | cons name rest ih =>
    have hcan := canMake_congr hc h name
    have hfactories := d.factories_instantiate name
    rw [firstOf]
    split
    · next plugin d' hmade =>
      have hfind : (name :: rest).find? c.canMake = some name :=
        List.find?_cons_of_pos (by rw [← hcan, canMake, hmade]; rfl)
      rw [IsFirstOf, hfind]
      exact ⟨plugin, rfl, instance_of_instantiate h (by rw [hmade])⟩
    · next fault d' hmade =>
      -- The failed call is there from now on, but the factories are the same.
      have hfind : (name :: rest).find? c.canMake = rest.find? c.canMake :=
        List.find?_cons_of_neg (by rw [← hcan, canMake, hmade]; exact Bool.false_ne_true)
      rw [hmade] at hfactories
      rw [IsFirstOf, hfind]
      exact ih (hfactories.trans h)

end Catalog

/-! ### Registries -/

namespace Registry

/-- What becomes of a registry by look-ups under the keys of their sources. What it has kept under
a key are instances of the first name for some source with that key. -/
structure Derived (keyOf : σ → String) (r₀ r : Registry σ α) : Prop where
  mappers : r.mappers = r₀.mappers
  factories : r.catalog.factories = r₀.catalog.factories
  kept : ∀ key plugin, r.cached? key = some plugin →
    ∃ source, keyOf source = key ∧ r₀.catalog.IsFirstOf (r₀.candidates source) (some plugin)

/-- A registry that has kept nothing is derived from itself. -/
theorem derived_self {keyOf : σ → String} {r : Registry σ α} (h : r.cache = ∅) :
    Derived keyOf r r where
  mappers := rfl
  factories := rfl
  kept key plugin hkept := by simp [cached?, h] at hkept

/-- A look-up has an instance of the first name for a source with the same key, and leaves a
derived registry. -/
theorem Derived.resolve {keyOf : σ → String} {r₀ r : Registry σ α} (hr : r₀.catalog.Determined)
    (h : Derived keyOf r₀ r) (source : σ) :
    (∃ origin, keyOf origin = keyOf source ∧ r₀.catalog.IsFirstOf (r₀.candidates origin)
      (r.resolve (keyOf source) source).1) ∧
    Derived keyOf r₀ (r.resolve (keyOf source) source).2 := by
  cases hcached : r.cached? (keyOf source) with
  | some plugin =>
    rw [resolve_of_cached hcached]
    exact ⟨h.kept _ plugin hcached, h⟩
  | none =>
    obtain ⟨hanswer, hmappers, hcatalog, hcache⟩ := resolve_of_not_cached hcached source
    have hnames : r.candidates source = r₀.candidates source := by simp [candidates, h.mappers]
    have hfound : r₀.catalog.IsFirstOf (r₀.candidates source)
        (r.catalog.firstOf (r.candidates source)).1 := by
      rw [hnames]
      exact Catalog.isFirstOf_firstOf hr h.factories _
    refine ⟨⟨source, rfl, hanswer ▸ hfound⟩, hmappers.trans h.mappers, ?_,
      fun key plugin hkept => ?_⟩
    · rw [hcatalog, r.catalog.factories_firstOf, h.factories]
    · rw [hcache] at hkept
      split at hkept
      · next hkey => exact ⟨source, hkey, hkept ▸ hfound⟩
      · exact h.kept key plugin hkept

end Registry

/-! ### Look-ups of an engine -/

/-- A look-up of any kind. -/
inductive Lookup where
  | strategy (annotationKey : String)
  | transformer (s : Strategy)
  | reviewer (i : Identity)

/-- The registries after a look-up. -/
def Lookup.run : Lookup → Plugins → Plugins
  | .strategy key, p => (Plugins.strategyFor key p).2
  | .transformer s, p => (Plugins.transformerFor s p).2
  | .reviewer i, p => (Plugins.reviewerFor i p).2

namespace Plugins

/-- The registries after look-ups. -/
def after (p : Plugins) (lookups : List Lookup) : Plugins :=
  lookups.foldl (fun p lookup => lookup.run p) p

theorem Stable.after {I : Plugins → Prop} (h : Stable I) (lookups : List Lookup) {p : Plugins}
    (hp : I p) : I (p.after lookups) := by
  induction lookups generalizing p with
  | nil => exact hp
  | cons lookup rest ih =>
    refine ih ?_
    cases lookup with
    | strategy key => exact h.strategyFor key p hp
    | transformer s => exact h.transformerFor s p hp
    | reviewer i => exact h.reviewerFor i p hp

/-- Registries of strategies and of transformers that have come from others by look-ups. -/
structure Derived (base p : Plugins) : Prop where
  strategies : Registry.Derived id base.strategies p.strategies
  transformers : Registry.Derived Strategy.name base.transformers p.transformers

theorem stable_derived {base : Plugins} (hs : base.strategies.catalog.Determined)
    (ht : base.transformers.catalog.Determined) : Stable (Derived base) where
  -- A look-up of one kind leaves the registries of the other kinds alone.
  strategyFor key _ hp := ⟨(hp.strategies.resolve hs key).2, hp.transformers⟩
  transformerFor s _ hp := ⟨hp.strategies, (hp.transformers.resolve ht s).2⟩
  reviewerFor _ _ hp := ⟨hp.strategies, hp.transformers⟩

end Plugins

/-! ### The order of the names -/

namespace EngineParts

/-- The names of the strategy for an annotation key: those of the custom mappers, the one of the
settings, the one by convention if there is a base package, and the standard one. -/
def strategyNames (parts : EngineParts) (annotationKey : String) : List String :=
  parts.strategyMappers.filterMap (fun mapper => mapper annotationKey)
    ++ ((parts.strategyOrder.lookup? annotationKey).toList
      ++ ((parts.settings.basePackage.map
            (Plugins.conventionalStrategy · annotationKey)).toList
        ++ (Strategy.nameFor? annotationKey).toList))

/-- The names of the transformer for a strategy, in the same order. Only the custom mappers see more
of the strategy than its name. -/
def transformerNames (parts : EngineParts) (s : Strategy) : List String :=
  parts.transformerMappers.filterMap (fun mapper => mapper s)
    ++ ((parts.transformerOrder.lookup? s.name).toList
      ++ ((parts.settings.basePackage.map (Plugins.conventionalTransformer · s.name)).toList
        ++ (Transformer.nameFor? s.name).toList))

theorem candidates_strategies (parts : EngineParts) (annotationKey : String) :
    parts.engine.plugins.strategies.candidates annotationKey
      = parts.strategyNames annotationKey :=
  Plugins.candidates_strategyRegistry _ _ _ _ _

theorem candidates_transformers (parts : EngineParts) (s : Strategy) :
    parts.engine.plugins.transformers.candidates s = parts.transformerNames s :=
  Plugins.candidates_transformerRegistry _ _ _ _ _

/-- Strategies of one name have the same names of transformers, if the custom mappers do not tell
them apart. -/
theorem transformerNames_congr {parts : EngineParts} {s t : Strategy} (hname : t.name = s.name)
    (hmappers : ∀ mapper ∈ parts.transformerMappers, mapper t = mapper s) :
    parts.transformerNames t = parts.transformerNames s := by
  have hcustom : parts.transformerMappers.filterMap (fun mapper => mapper t)
      = parts.transformerMappers.filterMap (fun mapper => mapper s) :=
    List.filterMap_congr hmappers
  rw [transformerNames, transformerNames, hcustom, hname]

end EngineParts

/-- Look-ups after any other look-ups. Each factory of strategies and transformers always succeeds
or always fails; what it makes may differ from call to call.

* The strategy for an annotation key is an instance of the first of its names that can be made, and
  there is none if no name can.
* The transformer for a strategy is one for a strategy of that name, in the same way. If the custom
  mappers take all strategies of that name for the same, it is the one for the strategy itself. -/
theorem lookups_follow_precedence (parts : EngineParts) (hs : parts.strategies.Determined)
    (ht : parts.transformers.Determined) (lookups : List Lookup) :
    let p := parts.engine.plugins.after lookups
    (∀ key, parts.strategies.IsFirstOf (parts.strategyNames key)
      (Plugins.strategyFor key p).1) ∧
    ∀ s, (∃ t, t.name = s.name ∧ parts.transformers.IsFirstOf (parts.transformerNames t)
        (Plugins.transformerFor s p).1) ∧
      ((∀ mapper ∈ parts.transformerMappers, ∀ t, t.name = s.name → mapper t = mapper s) →
        parts.transformers.IsFirstOf (parts.transformerNames s)
          (Plugins.transformerFor s p).1) := by
  intro p
  have hstart : Plugins.Derived parts.engine.plugins parts.engine.plugins :=
    ⟨Registry.derived_self rfl, Registry.derived_self rfl⟩
  have hp : Plugins.Derived parts.engine.plugins p :=
    (Plugins.stable_derived hs ht).after lookups hstart
  refine ⟨fun key => ?_, fun s => ?_⟩
  · obtain ⟨⟨origin, hkey, hfirst⟩, -⟩ := hp.strategies.resolve hs key
    obtain rfl : origin = key := hkey
    rw [EngineParts.candidates_strategies] at hfirst
    exact hfirst
  · obtain ⟨⟨t, hname, hfirst⟩, -⟩ := hp.transformers.resolve ht s
    rw [EngineParts.candidates_transformers] at hfirst
    refine ⟨⟨t, hname, hfirst⟩, fun hmappers => ?_⟩
    rw [← EngineParts.transformerNames_congr hname fun mapper hm => hmappers mapper hm t hname]
    exact hfirst

/-! ### A length that is checked in another way -/

open Annotation in
/-- For lengths, a custom mapper proposes a name that nobody knows, the settings one with a factory
that is broken, and the package has a strategy by convention. -/
def strictParts : EngineParts where
  settings :=
    { basePackage := some "acme"
      strategies := Dict.ofList [(Kind.length.key, "acme.BrokenStrategy")] }
  strategies := (Strategy.catalog.register "acme.BrokenStrategy"
      (.never "no default constructor")).register "acme.LengthValidationStrategy"
      (.fresh fun n => .ok ⟨"acme.Length", .own fun _ _ _ _ => .ok [.of "length" (toString n) []]⟩)
  strategyMappers :=
    [fun key => if key = Kind.length.key then some "acme.MissingStrategy" else none]

theorem determined_strictParts : strictParts.strategies.Determined := by
  have hstandard : Strategy.catalog.Determined := (Catalog.steady_ofList _).determined
  exact (hstandard.register _ ⟨false, fun _ => rfl⟩).register _ ⟨true, fun _ => rfl⟩

/-- Neither the unknown name nor the broken factory is in the way, before and after other look-ups.
The transformer is the standard one, because the package has none. -/
theorem lookups_follow_precedence_length :
    let key := Annotation.Kind.length.key
    let s : Strategy := ⟨Strategy.lengthName, .join⟩
    let p := strictParts.engine.plugins.after
      [.strategy Annotation.Kind.required.key, .strategy "acme.Unknown", .strategy key,
        .transformer s]
    strictParts.strategyNames key
      = ["acme.MissingStrategy", "acme.BrokenStrategy", "acme.LengthValidationStrategy",
          Strategy.lengthName] ∧
    (∃ found, (Plugins.strategyFor key p).1 = some found ∧
      strictParts.strategies.Instance "acme.LengthValidationStrategy" found) ∧
    strictParts.transformerNames s
      = ["acme.LengthMetaDataTransformer", Transformer.lengthName] ∧
    ∃ found, (Plugins.transformerFor s p).1 = some found ∧
      strictParts.transformers.Instance Transformer.lengthName found := by
  intro key s p
  have hstrategy : (strictParts.strategyNames key).find? strictParts.strategies.canMake
      = some "acme.LengthValidationStrategy" := by decide +kernel
  have htransformer : (strictParts.transformerNames s).find? strictParts.transformers.canMake
      = some Transformer.lengthName := by decide +kernel
  obtain ⟨hstrategies, htransformers⟩ := lookups_follow_precedence strictParts
    determined_strictParts (Catalog.steady_ofList _).determined
    [.strategy Annotation.Kind.required.key, .strategy "acme.Unknown", .strategy key,
      .transformer s]
  have hkey := hstrategies key
  have hs := (htransformers s).2 fun mapper hmapper => absurd hmapper List.not_mem_nil
  rw [Catalog.IsFirstOf, hstrategy] at hkey
  rw [Catalog.IsFirstOf, htransformer] at hs
  exact ⟨by decide +kernel, hkey, by decide +kernel, hs⟩

end FieldGuard
