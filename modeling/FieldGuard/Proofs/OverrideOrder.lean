import FieldGuard.Proofs.Overrides
import FieldGuard.Proofs.Precedence

/-!
# `FieldGuard.Proofs.OverrideOrder`: engines with their overrides in any order

Settings hold their overrides by key, but nothing about a table of overrides fixes an order, so an
engine may have them in any one. It finds the same strategies in every order just where the
overrides are unambiguous.

* `EngineParts.candidates_pluginsIn`: then the names for an annotation key are the same;
* `overrides_order_free_iff`: this for the settings of an engine, and the strategies that it finds;
* `overrides_depend_on_order`: two spellings of one key, with two names.
-/

set_option autoImplicit false

namespace FieldGuard

/-! ### Engines -/

namespace EngineParts

variable (parts : EngineParts) (os : Overrides.Order parts.settings.strategies)
  (ot : Overrides.Order parts.settings.transformers)

/-- The registries of an engine of these parts, with the overrides in given orders. -/
def pluginsIn : Plugins :=
  (parts.inOrder os ot).engine.plugins

/-- The names of the strategy for an annotation key are the same in every order, if the overrides
are unambiguous for it. -/
theorem candidates_pluginsIn {key : String} (h : parts.settings.strategies.Unambiguous key) :
    (parts.pluginsIn os ot).strategies.candidates key = parts.strategyNames key := by
  have hname : os.lookup? key = parts.strategyOrder.lookup? key :=
    Overrides.lookup?_congr os parts.strategyOrder h
  rw [strategyNames, ← hname]
  exact candidates_strategies (parts.inOrder os ot) key

end EngineParts

/-- A look-up of overrides is the same in every order just when the overrides are unambiguous for
what is looked up, and so are the strategies of an engine.

Settings hold overrides by key, so the order of the keys is one of the orders that are compared.
If the overrides are unambiguous for an annotation key, an engine has an instance of the same
strategy in every order, after any look-ups. Each factory of strategies and of transformers has to
succeed always or to fail always. -/
theorem overrides_order_free_iff (parts : EngineParts) :
    (∀ key, (∀ os : Overrides.Order parts.settings.strategies,
        os.lookup? key = parts.settings.strategyFor? key) ↔
      parts.settings.strategies.Unambiguous key) ∧
    (∀ name, (∀ ot : Overrides.Order parts.settings.transformers,
        ot.lookup? name = parts.settings.transformerFor? name) ↔
      parts.settings.transformers.Unambiguous name) ∧
    (parts.strategies.Determined → parts.transformers.Determined →
      ∀ key, parts.settings.strategies.Unambiguous key → ∀ os ot lookups,
        parts.strategies.IsFirstOf (parts.strategyNames key)
          (Plugins.strategyFor key ((parts.pluginsIn os ot).after lookups)).1) := by
  refine ⟨fun key => Overrides.lookup?_congr_iff, fun name => Overrides.lookup?_congr_iff, ?_⟩
  intro hs ht key hkey os ot lookups
  -- Look-ups before only fill the memo, with instances of the first name that can be made.
  have hstart : Plugins.Derived (parts.pluginsIn os ot) (parts.pluginsIn os ot) :=
    ⟨Registry.derived_self rfl, Registry.derived_self rfl⟩
  have hafter : Plugins.Derived (parts.pluginsIn os ot) ((parts.pluginsIn os ot).after lookups) :=
    (Plugins.stable_derived hs ht).after lookups hstart
  obtain ⟨⟨origin, horigin, hfirst⟩, -⟩ := hafter.strategies.resolve hs key
  obtain rfl : origin = key := horigin
  rwa [parts.candidates_pluginsIn os ot hkey] at hfirst

section

open Annotation

/-- One key in two spellings besides the exact one, and another one in two spellings with one and
the same name. -/
def spelledParts : EngineParts where
  settings :=
    { strategies := Dict.ofList
        [(Kind.length.key, Strategy.patternName), ("EXTVAL.PROPERTY.LENGTH", Strategy.joinName),
          ("extval.property.length", Strategy.requiredName),
          ("extval.property.pattern", Strategy.requiredName),
          ("EXTVAL.PROPERTY.PATTERN", Strategy.requiredName)] }

/-- Both are found in the order that is opposite to that of the keys, also after other look-ups. -/
theorem overrides_order_free_iff_spellings :
    let overrides := spelledParts.settings.strategies
    let reversed : Overrides.Order overrides := ⟨overrides.pairs.reverse, List.reverse_perm _⟩
    let p := (spelledParts.pluginsIn reversed (.byKey _)).after
      [.strategy "extval.property.LENGTH", .strategy Kind.length.key]
    overrides.Unambiguous Kind.length.key ∧ overrides.Unambiguous Kind.pattern.key ∧
    ¬ overrides.Unambiguous "extval.property.LENGTH" ∧
    reversed.lookup? Kind.length.key = some Strategy.patternName ∧
    (∃ found, (Plugins.strategyFor Kind.length.key p).1 = some found ∧
      spelledParts.strategies.Instance Strategy.patternName found) ∧
    ∃ found, (Plugins.strategyFor Kind.pattern.key p).1 = some found ∧
      spelledParts.strategies.Instance Strategy.requiredName found := by
  intro overrides reversed p
  have hlength : overrides.Unambiguous Kind.length.key := by decide +kernel
  have hpattern : overrides.Unambiguous Kind.pattern.key := by decide +kernel
  obtain ⟨hlookup, -, hfound⟩ := overrides_order_free_iff spelledParts
  have hexact := (hlookup Kind.length.key).2 hlength reversed
  have hdetermined := (Catalog.steady_ofList (Strategy.standard.map fun s => (s.name, s))).determined
  have hfirst := hfound hdetermined (Catalog.steady_ofList _).determined
  have hfirstLength := hfirst _ hlength reversed (.byKey _)
    [.strategy "extval.property.LENGTH", .strategy Kind.length.key]
  have hfirstPattern := hfirst _ hpattern reversed (.byKey _)
    [.strategy "extval.property.LENGTH", .strategy Kind.length.key]
  have hnameLength : (spelledParts.strategyNames Kind.length.key).find?
      spelledParts.strategies.canMake = some Strategy.patternName := by decide +kernel
  have hnamePattern : (spelledParts.strategyNames Kind.pattern.key).find?
      spelledParts.strategies.canMake = some Strategy.requiredName := by decide +kernel
  rw [Catalog.IsFirstOf, hnameLength] at hfirstLength
  rw [Catalog.IsFirstOf, hnamePattern] at hfirstPattern
  exact ⟨hlength, hpattern, by decide +kernel, hexact.trans (by decide +kernel), hfirstLength,
    hfirstPattern⟩

/-- An engine with two spellings of the key of lengths, neither of them exact. -/
def ambiguousParts : EngineParts where
  settings :=
    { strategies := Dict.ofList
        [("EXTVAL.PROPERTY.LENGTH", Strategy.requiredName),
          ("extval.property.length", Strategy.patternName)] }

/-- Which strategy checks a length is decided by the order of the two overrides. -/
theorem overrides_depend_on_order :
    let overrides := ambiguousParts.settings.strategies
    let reversed : Overrides.Order overrides := ⟨overrides.pairs.reverse, List.reverse_perm _⟩
    ambiguousParts.settings.strategyFor? Kind.length.key = some Strategy.requiredName ∧
    reversed.lookup? Kind.length.key = some Strategy.patternName ∧
    (Plugins.strategyFor Kind.length.key ambiguousParts.engine.plugins).1.map (·.name)
      = some Strategy.requiredName ∧
    (Plugins.strategyFor Kind.length.key
      (ambiguousParts.pluginsIn reversed (.byKey _))).1.map (·.name)
      = some Strategy.patternName ∧
    ¬ ∀ os os' : Overrides.Order overrides,
      os.lookup? Kind.length.key = os'.lookup? Kind.length.key := by
  intro overrides reversed
  have hbyKey : (Overrides.Order.byKey overrides).lookup? Kind.length.key
      = some Strategy.requiredName := by decide +kernel
  have hreversed : reversed.lookup? Kind.length.key = some Strategy.patternName := by
    decide +kernel
  refine ⟨hbyKey, hreversed, by decide +kernel, by decide +kernel, fun hsame => ?_⟩
  rw [hsame reversed (.byKey overrides), hbyKey] at hreversed
  exact absurd hreversed (by decide)

end

end FieldGuard
