import FieldGuard.Component.Basic
import FieldGuard.Message
import FieldGuard.PropertyInfo
import FieldGuard.Registry.Catalog
import FieldGuard.Text.Replace

/-!
# `FieldGuard.Reviewer`: reviewing failures before they are reported

A reviewer sees the violations and the message that is about to be reported. It
may change the message, or suppress the failure.
-/

set_option autoImplicit false

namespace FieldGuard

/-- What reviews a failure: whether it is reported, and with which message. -/
structure Reviewer where
  review : Identity → List Violation → Message → Bool × Message

namespace Reviewer

/-- The slot in messages that the label of a component fills. -/
def labelSlot : String := "\x7b0\x7d"

/-- The message with the label in its slots; without a label it stays as it is. -/
def fillLabel (i : Identity) (m : Message) : Message :=
  match i.label with
  | none => m
  | some label =>
    { m with
      summary := Text.replace labelSlot label m.summary
      detail := Text.replace labelSlot label m.detail }

/-- Name of the standard reviewer. -/
def standardName : String := "DefaultValidationExceptionInterceptor"

/-- The standard reviewer: fills in the label and lets every failure through. -/
def standard : Reviewer :=
  ⟨fun identity _ message => (true, fillLabel identity message)⟩

/-- The catalog of the standard reviewer. -/
def catalog : Catalog Reviewer :=
  .ofList [(standardName, standard)]

end Reviewer

end FieldGuard
