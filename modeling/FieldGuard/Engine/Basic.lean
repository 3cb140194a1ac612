import FieldGuard.Engine.Plugins
import FieldGuard.Hook
import FieldGuard.Initializer

/-!
# `FieldGuard.Engine.Basic`: engines and sessions

An engine holds everything that stays the same: the environment, the extractor,
the initializers, the hooks, the recorders and the registries as they are at
first. A session is what changes while a request is processed: the request, and
what look-ups have kept in the registries.
-/

set_option autoImplicit false

namespace FieldGuard

/-- What validates the components of a page. -/
structure Engine where
  env : Environment
  extractor : Extractor
  initializers : List Initializer
  hooks : List Hook
  recorders : List Recorder
  /-- The registries before any look-up. -/
  plugins : Plugins

/-- What an engine is made of. -/
structure EngineParts where
  settings : Settings := {}
  /-- How the overrides of strategies are walked through. Nothing in the settings says how. -/
  strategyOrder : settings.strategies.Order := .byKey _
  transformerOrder : settings.transformers.Order := .byKey _
  types : TypeModel := ⟨∅⟩
  evaluator : Evaluator := .standard
  constraints : Option ConstraintEngine := none
  strategies : Catalog Strategy := Strategy.catalog
  transformers : Catalog Transformer := Transformer.catalog
  reviewers : Catalog Reviewer := Reviewer.catalog
  extractors : Catalog Extractor := .ofList [(Extractor.standardName, .standard)]
  strategyMappers : List (Mapper String) := []
  transformerMappers : List (Mapper Strategy) := []
  initializers : List Initializer := Initializer.standard
  hooks : List Hook := []
  recorders : List Recorder := [.standard]

namespace EngineParts

/-- The extractor that the settings name, if it can be made; otherwise the standard one. -/
def extractor (p : EngineParts) : Extractor :=
  match p.settings.extractor with
  | none => .standard
  | some name =>
    match (p.extractors.instantiate name).1 with
    | .ok extractor => extractor
    | .error _ => .standard

/-- The engine made of the parts. Its constraint engine is the one for its types,
unless another one is given. -/
def engine (p : EngineParts) : Engine where
  env :=
    { settings := p.settings
      types := p.types
      evaluator := p.evaluator
      constraints := p.constraints.getD (.ofTypes p.types) }
  extractor := p.extractor
  initializers := p.initializers
  hooks := p.hooks
  recorders := p.recorders
  plugins :=
    { strategies :=
        Plugins.strategyRegistry p.settings p.strategies p.strategyMappers p.strategyOrder
      transformers :=
        Plugins.transformerRegistry p.settings p.transformers p.transformerMappers
          p.transformerOrder
      reviewers := Plugins.reviewerRegistry p.settings p.reviewers }

/-- The same parts, with the overrides walked through in other orders. -/
def inOrder (p : EngineParts) (strategyOrder : p.settings.strategies.Order)
    (transformerOrder : p.settings.transformers.Order) : EngineParts :=
  { p with strategyOrder, transformerOrder }

end EngineParts

/-- The registries with what look-ups have kept, and the request. -/
structure Session where
  plugins : Plugins
  request : Request
  deriving Inhabited

namespace Session

/-- A session of an engine that has not looked anything up yet. -/
def start (e : Engine) (request : Request) : Session :=
  ⟨e.plugins, request⟩

/-- A look-up among the plug-ins of a session. -/
def lookup {α : Type} (find : StateM Plugins α) : StateM Session α := fun s =>
  let (found, plugins) := find s.plugins
  (found, { s with plugins })

/-- The request as it is now. -/
def current : StateM Session Request := fun s =>
  (s.request, s)

/-- A change of the request. -/
def change (f : Request → Request) : StateM Session Unit := fun s =>
  ((), { s with request := f s.request })

/-- A change of the request with a result. -/
def run {α : Type} (f : Request → α × Request) : StateM Session α := fun s =>
  let (result, request) := f s.request
  (result, { s with request })

/-- Puts a component at a stage. -/
def setStage (clientId : String) (stage : Stage) : StateM Session Unit :=
  change fun r => r.setStage clientId stage

end Session

namespace Engine

/-- Finds the annotations of the property that a component is bound to. -/
def extract (e : Engine) (r : Request) (c : Component) : Except Fault PropertyInfo :=
  e.extractor.extract e.env r (.component c)

/-- What is known about the property of a component, with its details and its owner. -/
structure Bound where
  info : PropertyInfo
  details : Details
  owner : Bean

/-- A property with its details and its owner, if both are known. -/
def Bound.of? (info : PropertyInfo) : Option Bound :=
  info.details?.bind fun details => details.base.map fun owner => ⟨info, details, owner⟩

/-- What is known about the property of a component that can be validated: extraction
has to succeed and to find an owner. -/
def bound? (e : Engine) (r : Request) (c : Component) : Option Bound :=
  match e.extract r c with
  | .error _ => none
  | .ok info => Bound.of? info

end Engine

end FieldGuard
