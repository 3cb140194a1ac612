import FieldGuard.Extraction.Controllers

/-!
# `FieldGuard.Engine.Groups`: the groups of a component

Group controllers are read from four places: the type of the root object of the
binding, the first property on it, the type of the object that owns the property,
and the property itself. A place that comes up twice is read once. Only permitted
controllers count: one of their conditions has to be true. Instead of controllers,
the settings may ask for the group sequence of the owner's type.

What a resolution finds is put into the ledger of the request and stays there.

* `places`, `scan`: the places that are read, and the permitted controllers found there;
* `resolve`: the groups of a component, and the request afterwards.
-/

set_option autoImplicit false

namespace FieldGuard

namespace Groups

/-! ### Permission -/

/-- Whether a condition is a valid expression that is true. -/
def isSatisfied (env : Environment) (page : Page) (condition : String) : Bool :=
  env.evaluator.isWellFormed condition && env.evaluator.isValid page.scope condition &&
    match env.evaluator.valueOf page.scope condition with
    | .ok (.bool true) => true
    | _ => false

/-- Whether one of the conditions of a controller is satisfied. -/
def isPermitted (env : Environment) (page : Page) (c : GroupController) : Bool :=
  c.conditions.any (isSatisfied env page)

/-! ### Places -/

/-- A type or a property of it, as the type of an instance. -/
structure Location where
  object : Bean
  property : Option String
  deriving Inhabited

namespace Location

/-- Whether two places are of one instance. -/
def sameAs (a b : Location) : Bool :=
  a.object.identity == b.object.identity && a.property == b.property

/-- The controllers at a place. -/
def controllers (m : TypeModel) (view : String) (l : Location) : List GroupController :=
  match l.property with
  | none => m.classControllers view l.object.typeName
  | some property => m.propertyControllers view l.object.typeName property

end Location

/-- The root object of resolved details. -/
def root? (env : Environment) (page : Page) (d : Details) : Option Bean :=
  ((Text.dotted d.key).head?.bind (env.evaluator.bean? page.scope)).bind Value.asBean?

/-- The places on the root object. -/
def rootPlaces (env : Environment) (page : Page) (d : Details) : List Location :=
  match root? env page d with
  | none => []
  | some root =>
    ⟨root, none⟩ :: ((Text.dotted d.key)[1]?.map fun first => ⟨root, some first⟩).toList

/-- The places on the owner of the property. -/
def ownerPlaces (d : Details) : List Location :=
  match d.base with
  | none => []
  | some owner => [⟨owner, none⟩, ⟨owner, some d.property⟩]

/-- Drops every place that came up before. -/
def distinct (seen : List Location) : List Location → List Location
  | [] => []
  | l :: rest =>
    if seen.any l.sameAs then distinct seen rest else l :: distinct (seen ++ [l]) rest

/-- The places that are read for a property. -/
def places (env : Environment) (page : Page) (d : Details) : List Location :=
  distinct [] (rootPlaces env page d ++ ownerPlaces d)

/-- The permitted controllers with the places they were found at. -/
def scan (env : Environment) (page : Page) (d : Details) : List (Location × GroupController) :=
  (places env page d).flatMap fun l =>
    ((l.controllers env.types page.view).filter (isPermitted env page)).map fun c => (l, c)

/-! ### Resolution -/

/-- Whether a controller asks for a model validation. -/
def asksForModel (c : GroupController) : Bool :=
  c.modelValidation.isActive

/-- The controllers that switch groups. -/
def switches (found : List (Location × GroupController)) : List GroupController :=
  (found.map (·.2)).filter fun c => !asksForModel c

/-- The groups that model validations of a component leave out. -/
def leftOut (found : List (Location × GroupController)) : List String :=
  ((found.map (·.2)).filter asksForModel).flatMap (·.restrictGroups)

/-- What the controllers ask to be validated, without the groups that are left out. -/
def demands (env : Environment) (page : Page) (i : Identity) (d : Details)
    (found : List (Location × GroupController)) : List ModelDemand :=
  let without := leftOut found
  ((found.filter fun pair => asksForModel pair.2).map fun (l, c) =>
    { groups := c.useGroups.filter fun group => !without.contains group
      controller := c
      source := l.object
      defaultTarget := (d.base.or (root? env page d)).getD l.object
      identity := i : ModelDemand }).filter fun demand => !demand.groups.isEmpty

/-- The group sequence of a type: the first one along its hierarchy. -/
def sequence? (m : TypeModel) (typeName : String) : Option (List String) :=
  (m.classAnnotations typeName).findSome? Annotation.asGroupSequence?

/-- Puts the groups of the sequence of the owner's type into the ledger. -/
def applySequence (env : Environment) (i : Identity) (d : Details) (request : Request) : Request :=
  let groups := (d.baseType?.bind (sequence? env.types)).getD []
  { request with ledger := request.ledger.activateAll (request.owner i.clientId) groups }

/-- Puts what controllers switch into the ledger, and if asked for, what they want to be
validated into the queue. -/
def applyControllers (env : Environment) (i : Identity) (d : Details) (queues : Bool)
    (request : Request) : Request :=
  let found := scan env request.page d
  let owner := request.owner i.clientId
  let ledger := request.ledger.activateAll owner ((switches found).flatMap (·.useGroups))
  let ledger := ledger.restrictAll owner ((switches found).flatMap (·.restrictGroups))
  let queue :=
    if queues then request.queue.addAll request.page.view (demands env request.page i d found)
    else request.queue
  { request with ledger, queue }

/-- Resolves the groups of a component; model validations are queued only if asked for. -/
def resolve (env : Environment) (i : Identity) (d : Details) (queues : Bool) (request : Request) :
    List String × Request :=
  let request :=
    if env.settings.usesGroupSequences then applySequence env i d request
    else applyControllers env i d queues request
  (request.groups i.clientId, request)

end Groups

end FieldGuard
