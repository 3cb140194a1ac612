import FieldGuard.Evaluation
import FieldGuard.Message
import FieldGuard.Request.Groups
import FieldGuard.Request.ModelQueue

/-!
# `FieldGuard.Request.Basic`: the state of one request

A request processes one view. It knows the named values that expressions can
reach, what was submitted, the groups, the model validations that wait, the
messages for the user and how far every component has come. Hooks may write lines
into its journal.
-/

set_option autoImplicit false

namespace FieldGuard

/-- How far a component has come. -/
inductive Stage where
  | init
  | metadataExtracted
  | configured
  | rawInput
  | converted
  | groupsResolved
  | validated
  | valid
  | failed
  deriving DecidableEq, Repr, Inhabited

/-- Name of a stage. -/
def Stage.name : Stage → String
  | .init => "Init"
  | .metadataExtracted => "MetaDataExtracted"
  | .configured => "Configured"
  | .rawInput => "RawInput"
  | .converted => "Converted"
  | .groupsResolved => "GroupsResolved"
  | .validated => "Validated"
  | .valid => "Valid"
  | .failed => "Failed"

/-- The view that is processed, and the values that expressions can name in it. -/
structure Page where
  view : String
  scope : Scope := ∅
  deriving Inhabited

/-- The state of one request. -/
structure Request where
  page : Page
  /-- Submitted values by the resolved names of their properties. -/
  recorded : Dict Value := ∅
  ledger : GroupLedger := {}
  queue : ModelQueue := {}
  messages : List QueuedMessage := []
  /-- The stages of the components by client id. -/
  stages : Dict Stage := ∅
  /-- Lines that hooks have written. -/
  journal : List String := []
  deriving Inhabited

/-- A page by itself is a request in which nothing has happened yet. -/
instance : Coe Page Request where
  coe page := { page }

namespace Request

/-- A request for a view with named values. -/
def new (view : String) (scope : Scope) : Request :=
  (⟨view, scope⟩ : Page)

/-- The request with a value under a name. -/
def setBean (r : Request) (name : String) (value : Value) : Request :=
  { r with page := { r.page with scope := r.page.scope.insert name value } }

/-- The request with a submitted value recorded. -/
def record (r : Request) (key : String) (value : Value) : Request :=
  { r with recorded := r.recorded.insert key value }

/-- The request with a component at a stage. -/
def setStage (r : Request) (clientId : String) (stage : Stage) : Request :=
  { r with stages := r.stages.insert clientId stage }

/-- The request with one more message for a component. -/
def addMessage (r : Request) (clientId : String) (message : Message) : Request :=
  { r with messages := r.messages ++ [⟨some clientId, message⟩] }

/-- The request with messages for a component, one after the other. -/
def addMessages (r : Request) (clientId : String) (messages : List Message) : Request :=
  messages.foldl (fun r message => r.addMessage clientId message) r

/-- The request with one more line in its journal. -/
def note (r : Request) (line : String) : Request :=
  { r with journal := r.journal ++ [line] }

/-- The messages for a component. -/
def messagesFor (r : Request) (clientId : String) : List Message :=
  (r.messages.filter fun queued => queued.clientId == some clientId).map (·.message)

/-- The component in the view of the request. -/
def owner (r : Request) (clientId : String) : Owner :=
  ⟨r.page.view, clientId⟩

/-- The groups that count for a component. -/
def groups (r : Request) (clientId : String) : List String :=
  r.ledger.groups (r.owner clientId)

theorem messages_addMessages (r : Request) (clientId : String) (messages : List Message) :
    (r.addMessages clientId messages).messages
      = r.messages ++ messages.map fun message => ⟨some clientId, message⟩ := by
  induction messages generalizing r with
  | nil => simp [addMessages]
  | cons m rest ih =>
    have h := ih (r.addMessage clientId m)
    simp only [addMessages, List.foldl_cons] at h ⊢
    rw [h]
    simp [addMessage]

end Request

end FieldGuard
