import FieldGuard.Registry.Basic
import FieldGuard.Reviewer
import FieldGuard.Strategy.Standard
import FieldGuard.Transformer.Standard

/-!
# `FieldGuard.Engine.Plugins`: which plug-in stands for what

The strategy for an annotation key is proposed by custom mappers, then by the
settings, then by a naming convention in the base package, and last by the table
of standard strategies. The transformer for a strategy is found in the same way by
the name of the strategy. A reviewer is named by the settings, or is the standard
one. Look-ups keep what they find.

The overrides in the settings may be walked through in any order, which every registry
has from the time that it is made.

* `candidates_strategyRegistry`: the names proposed for an annotation key, in order;
* `candidates_transformerRegistry`: the names proposed for a strategy, in order.
-/

set_option autoImplicit false

namespace FieldGuard

namespace Plugins

/-- Name by convention of the strategy for an annotation key. -/
def conventionalStrategy (package annotationKey : String) : String :=
  package ++ "." ++ Text.simpleName annotationKey ++ "ValidationStrategy"

/-- A text without an ending, if it has it. -/
def withoutEnding? (ending text : String) : Option String :=
  if ending.toList.isSuffixOf text.toList then
    some (String.ofList (text.toList.take (text.length - ending.length)))
  else none

/-- What a strategy is for, by its name. -/
def stem (strategyName : String) : String :=
  let name := Text.simpleName strategyName
  ((withoutEnding? "ValidationStrategy" name).or (withoutEnding? "Strategy" name)).getD name

/-- Name by convention of the transformer for a strategy. -/
def conventionalTransformer (package strategyName : String) : String :=
  package ++ "." ++ stem strategyName ++ "MetaDataTransformer"

/-- The registry of strategies by annotation key. -/
def strategyRegistry (settings : Settings) (catalog : Catalog Strategy)
    (custom : List (Mapper String)) (order : settings.strategies.Order := .byKey _) :
    Registry String Strategy where
  role := "validation_strategy"
  mappers := custom ++
    [order.lookup?, fun key => settings.basePackage.map (conventionalStrategy · key),
      Strategy.nameFor?]
  catalog := catalog

/-- The registry of transformers by strategy. -/
def transformerRegistry (settings : Settings) (catalog : Catalog Transformer)
    (custom : List (Mapper Strategy)) (order : settings.transformers.Order := .byKey _) :
    Registry Strategy Transformer where
  role := "meta_data_transformer"
  mappers := custom ++
    [fun s => order.lookup? s.name,
      fun s => settings.basePackage.map (conventionalTransformer · s.name),
      fun s => Transformer.nameFor? s.name]
  catalog := catalog

/-- The registry of reviewers by component. -/
def reviewerRegistry (settings : Settings) (catalog : Catalog Reviewer) :
    Registry Identity Reviewer where
  role := "validation_exception_interceptor"
  mappers := (settings.reviewer.map Mapper.fixed).toList ++ [Mapper.fixed Reviewer.standardName]
  catalog := catalog

/-- The names proposed for an annotation key, in order. -/
theorem candidates_strategyRegistry (settings : Settings) (catalog : Catalog Strategy)
    (custom : List (Mapper String)) (order : settings.strategies.Order) (key : String) :
    (strategyRegistry settings catalog custom order).candidates key
      = custom.filterMap (fun mapper => mapper key)
        ++ ((order.lookup? key).toList
          ++ ((settings.basePackage.map (conventionalStrategy · key)).toList
            ++ (Strategy.nameFor? key).toList)) := by
  cases h1 : order.lookup? key <;>
    cases h2 : settings.basePackage <;>
      cases h3 : Strategy.nameFor? key <;>
        simp [strategyRegistry, Registry.candidates, List.filterMap_append, h1, h2, h3]

/-- The names proposed for a strategy, in order. -/
theorem candidates_transformerRegistry (settings : Settings) (catalog : Catalog Transformer)
    (custom : List (Mapper Strategy)) (order : settings.transformers.Order) (s : Strategy) :
    (transformerRegistry settings catalog custom order).candidates s
      = custom.filterMap (fun mapper => mapper s)
        ++ ((order.lookup? s.name).toList
          ++ ((settings.basePackage.map (conventionalTransformer · s.name)).toList
            ++ (Transformer.nameFor? s.name).toList)) := by
  cases h1 : order.lookup? s.name <;>
    cases h2 : settings.basePackage <;>
      cases h3 : Transformer.nameFor? s.name <;>
        simp [transformerRegistry, Registry.candidates, List.filterMap_append, h1, h2, h3]

end Plugins

/-- The registries of an engine, with everything their look-ups have kept. -/
structure Plugins where
  strategies : Registry String Strategy
  transformers : Registry Strategy Transformer
  reviewers : Registry Identity Reviewer
  deriving Inhabited

namespace Plugins

/-- The strategy for an annotation key. -/
def strategyFor (annotationKey : String) : StateM Plugins (Option Strategy) := fun p =>
  let (found, strategies) := p.strategies.resolve annotationKey annotationKey
  (found, { p with strategies })

/-- The transformer for a strategy. -/
def transformerFor (s : Strategy) : StateM Plugins (Option Transformer) := fun p =>
  let (found, transformers) := p.transformers.resolve s.name s
  (found, { p with transformers })

/-- The reviewer for a component. -/
def reviewerFor (i : Identity) : StateM Plugins (Option Reviewer) := fun p =>
  let (found, reviewers) := p.reviewers.resolve i.componentType i
  (found, { p with reviewers })

end Plugins

end FieldGuard
