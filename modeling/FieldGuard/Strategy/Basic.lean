import FieldGuard.Extraction.Join

/-!
# `FieldGuard.Strategy.Basic`: strategies, which check values against annotations

A strategy checks a converted value against one entry. It either has a check of
its own, or it is the join, which borrows the checks of other properties. The
name of a strategy decides which transformer goes with it.

A check is given the whole request, so that one of an application may compare a
value with what was submitted before. The checks of the library read nothing of it.
-/

set_option autoImplicit false

namespace FieldGuard

/-- What a strategy finds wrong with a value. -/
structure Complaint where
  code : String
  message : Option String := none
  params : Dict Json := ∅
  deriving Inhabited

namespace Complaint

/-- A complaint with a message. -/
def of (code message : String) (params : List (String × Json)) : Complaint :=
  ⟨code, some message, Dict.ofList params⟩

/-- The message, or else the code. -/
def text (c : Complaint) : String :=
  c.message.getD c.code

/-- A complaint as JSON, with its text. -/
def toJson (c : Complaint) : Json :=
  .ofMembers [("code", .string c.code), ("message", Json.orNull .string c.message),
    ("text", .string c.text), ("params", .object c.params.pairs)]

end Complaint

/-- How a strategy checks a value. -/
inductive Check where
  | own (check : Environment → Request → Entry → Value → Except Fault (List Complaint))
  /-- By the checks of the entries that a join borrows. -/
  | join

/-- What checks values against an annotation. -/
structure Strategy where
  name : String
  check : Check

namespace Strategy

/-- A strategy that looks at nothing but the entry and the value. -/
def ofEntry (name : String) (check : Entry → Value → Except Fault (List Complaint)) : Strategy :=
  ⟨name, .own fun _ _ entry value => check entry value⟩

end Strategy

end FieldGuard
