import FieldGuard.Json.Decode

/-!
# `FieldGuard.Message`: messages for the end user
-/

set_option autoImplicit false

namespace FieldGuard

/-- How serious a message is. -/
inductive Severity where
  | info
  | warn
  | error
  | fatal
  deriving DecidableEq, Repr, Inhabited

namespace Severity

/-- Name of a severity. -/
def name : Severity → String
  | .info => "info"
  | .warn => "warn"
  | .error => "error"
  | .fatal => "fatal"

/-- The severity of a name. -/
def ofName? : String → Option Severity
  | "info" => some .info
  | "warn" => some .warn
  | "error" => some .error
  | "fatal" => some .fatal
  | _ => none

theorem ofName?_name (s : Severity) : ofName? s.name = some s := by
  cases s <;> rfl

end Severity

/-- A message: a short summary and a detail, which are often the same. -/
structure Message where
  severity : Severity
  summary : String
  detail : String
  deriving DecidableEq, Repr, Inhabited

namespace Message

/-- An error with one text for both parts. -/
def error (text : String) : Message :=
  ⟨.error, text, text⟩

/-- The summary, followed by a detail that differs from it. -/
def text (m : Message) : String :=
  if m.summary = m.detail then m.summary else m.summary ++ ": " ++ m.detail

/-- The message as JSON. -/
def toJson (m : Message) : Json :=
  .object [("detail", .string m.detail), ("severity", .string m.severity.name),
    ("summary", .string m.summary)]

/-- Decodes a message. -/
def ofJson? (json : Json) : Option Message := do
  let members ← json.asObject?
  let severity ← Json.required? "severity" Json.asString? members >>= Severity.ofName?
  let summary ← Json.required? "summary" Json.asString? members
  let detail ← Json.required? "detail" Json.asString? members
  some ⟨severity, summary, detail⟩

end Message

/-- A message of a request, mostly tied to a component. -/
structure QueuedMessage where
  clientId : Option String
  message : Message
  deriving DecidableEq, Repr, Inhabited

/-- The queued message as JSON. -/
def QueuedMessage.toJson (m : QueuedMessage) : Json :=
  .object [("client_id", Json.orNull .string m.clientId), ("message", m.message.toJson)]

end FieldGuard
