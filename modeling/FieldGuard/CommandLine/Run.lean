import FieldGuard.CommandLine.Arguments
import FieldGuard.CommandLine.Fixture
import FieldGuard.Engine.Drain
import FieldGuard.Engine.Render
import FieldGuard.Engine.Submit
import FieldGuard.Settings.Layers

/-!
# `FieldGuard.CommandLine.Run`: running a command

Inspection reports what rendering makes of every component. Validation renders and
validates every component in turn and then the objects that wait; it succeeds if
nothing failed. Settings are loaded first, then the fixture, then its components
are made.

* `status_validate`: validation succeeds just when no outcome and no object failed.
-/

set_option autoImplicit false

namespace FieldGuard.CommandLine

/-! ### Reports -/

/-- What rendering makes of a component, as JSON. -/
def inspection (metadata : Metadata) (c : Component) : Json :=
  .ofMembers [("client_id", .string c.clientId), ("meta_data", metadata.toJson),
    ("required", .bool c.isRequired), ("validators", HostValidator.listToJson c.allValidators),
    ("attributes", .object c.attributes.pairs)]

/-- Renders components one after the other. -/
def inspectAll (e : Engine) : List (Component × Option String) → StateM Session (List Json)
  | [] => pure []
  | (c, _) :: rest => do
    let (metadata, c) ← e.init c
    let others ← inspectAll e rest
    pure (inspection metadata c :: others)

/-- Renders and validates components one after the other; of two outcomes for one
client id the later counts. -/
def validateAll (e : Engine) : Dict Outcome → List (Component × Option String) →
    StateM Session (Dict Outcome)
  | outcomes, [] => pure outcomes
  | outcomes, (c, submitted) :: rest => do
    let (_, c) ← e.init c
    match submitted with
    | none => validateAll e outcomes rest
    | some text => do
      let outcome ← e.submit c text
      validateAll e (outcomes.insert c.clientId outcome) rest

/-- What validation found. -/
structure Findings where
  view : String
  outcomes : Dict Outcome
  modelFailures : List ModelFailure
  messages : List QueuedMessage

namespace Findings

/-- Whether an outcome or an object failed. -/
def hasFailure (f : Findings) : Bool :=
  (f.outcomes.values.any fun outcome => !outcome.isValid) || !f.modelFailures.isEmpty

/-- The findings as JSON. -/
def toJson (f : Findings) : Json :=
  .ofMembers [("view_id", .string f.view),
    ("outcomes", .object (f.outcomes.pairs.map fun (id, outcome) => (id, outcome.toJson))),
    ("model_failures", .array (f.modelFailures.map ModelFailure.toJson)),
    ("messages", .array (f.messages.map QueuedMessage.toJson))]

end Findings

/-- Validates the components of a page. -/
def findings (e : Engine) (request : FieldGuard.Request)
    (components : List (Component × Option String)) : Findings :=
  let (outcomes, session) := validateAll e ∅ components (Session.start e request)
  let (modelFailures, session) := e.drain session
  { view := session.request.page.view
    outcomes, modelFailures
    messages := session.request.messages }

/-! ### Results -/

/-- What a run ends with. -/
structure Result where
  status : Nat
  /-- The report. -/
  report : Option Json := none
  /-- What went wrong before there was a report. -/
  complaint : Option String := none

namespace Result

/-- The end of a run that has nothing to report. -/
def failed (complaint : String) : Result :=
  { status := 1, complaint := some complaint }

/-- The result of a validation. -/
def ofFindings (f : Findings) : Result :=
  { status := if f.hasFailure then 1 else 0, report := some f.toJson }

/-- Validation succeeds just when no outcome and no object failed. -/
theorem status_validate (f : Findings) :
    (ofFindings f).status = 0 ↔
      (∀ outcome ∈ f.outcomes.values, outcome.isValid = true) ∧ f.modelFailures = [] := by
  simp [ofFindings, Findings.hasFailure]

end Result

/-- Runs a command on a fixture. -/
def runFixture (settings : Settings) (i : Invocation) (f : Fixture) : Result :=
  let e := EngineParts.engine { settings, types := .ofTypes f.types }
  match Fixture.converted f.components with
  | .error name => .failed ("Unknown converter '" ++ name ++ "'")
  | .ok components =>
    match i.command with
    | .inspect =>
      { status := 0
        report := some (.array (inspectAll e components (.start e (f.request i.view))).1) }
    | .validate => .ofFindings (findings e (f.request i.view) components)

/-- The files and variables that a run can see. -/
structure Sources where
  /-- The table of the settings file of a name, if there is a file. -/
  table : String → Except String (List (String × Json))
  /-- The fixture of a path: none if there is no such file, and none inside if it is no JSON. -/
  fixture : String → Option (Option Json)
  environment : List (String × String)

/-- Loads the settings of a run. -/
def Sources.settings (s : Sources) (config : String) : Except String Settings := do
  let table ← s.table config
  (Settings.load (config ++ ".toml") table s.environment).mapError Settings.LoadFault.message

/-- Runs a command. -/
def runInvocation (s : Sources) (i : Invocation) : Result :=
  match s.settings i.config with
  | .error reason => .failed ("Failed to load configuration: " ++ reason)
  | .ok settings =>
    match s.fixture i.fixture with
    | none => .failed ("Failed to read fixture " ++ i.fixture)
    | some json =>
      match json.bind Fixture.ofJson? with
      | none => .failed ("Failed to parse fixture " ++ i.fixture)
      | some fixture => runFixture settings i fixture

/-- Runs the command line. -/
def run (s : Sources) (args : List String) : Result :=
  match Request.ofArguments args with
  | .misuse => { status := 2 }
  | .information => { status := 0 }
  | .run i => runInvocation s i

end FieldGuard.CommandLine
