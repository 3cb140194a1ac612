import FieldGuard.Engine.Basic
import FieldGuard.Outcome

/-!
# `FieldGuard.Engine.Report`: reporting violations

The first violation becomes the message, behind the slot for the label. If the
reviewer leaves that slot as it is in either part of the message, the plain
message of the violation is reported instead. A reviewer may suppress the failure.

* `plainUnlessLabelled`: what becomes of a reviewed message.
-/

set_option autoImplicit false

namespace FieldGuard.Engine

/-- The message of a violation behind the slot for the label. -/
def labelled (v : Violation) : String :=
  Reviewer.labelSlot ++ ": " ++ v.message

/-- A reviewed message, or the plain one of the violation if the slot is still there. -/
def plainUnlessLabelled (v : Violation) (m : Message) : Message :=
  if m.summary = labelled v ∨ m.detail = labelled v then
    { m with summary := v.message, detail := v.message }
  else m

/-- The reviewer's decision and message; without a reviewer the failure is reported. -/
def review (i : Identity) (violations : List Violation) (m : Message) :
    StateM Plugins (Bool × Message) := do
  match ← Plugins.reviewerFor i with
  | none => pure (true, m)
  | some reviewer => pure (reviewer.review i violations m)

/-- The messages of further violations, if the settings ask for them. -/
def additional (settings : Settings) (rest : List Violation) : List Message :=
  if settings.reportsAllViolations then rest.map fun v => .error v.message else []

/-- The failure for violations; none without any, or if it is suppressed. -/
def report (e : Engine) (i : Identity) : List Violation → StateM Plugins (Option Failure)
  | [] => pure none
  | first :: rest => do
    let (reported, message) ← review i (first :: rest) (.error (labelled first))
    pure (if reported then
      some
        { clientId := i.clientId
          message := plainUnlessLabelled first message
          additional := additional e.env.settings rest
          violations := first :: rest }
      else none)

/-- Reports violations in a session: the messages of a failure are added to the request. -/
def reportIn (e : Engine) (i : Identity) (violations : List Violation) :
    StateM Session (Option Failure) := do
  match ← Session.lookup (e.report i violations) with
  | none => pure none
  | some failure => do
    Session.change fun r => r.addMessages i.clientId failure.messages
    pure (some failure)

end FieldGuard.Engine
