import FieldGuard.Json.Token

/-!
# `FieldGuard.Json.Reader`: reading a JSON text

A stack of containers that are still open is driven by the tokens, one step for
each. Reading fails unless exactly one value is complete at the end.

Libraries for JSON commonly give up on containers that nest deeper than 128 levels.
There is no such limit here. What is proved about decoding is about values, not about
texts.
-/

set_option autoImplicit false

namespace FieldGuard.Json

/-- A container that is still open. -/
inductive Frame where
  | items (done : List Json)
  | members (done : List (String × Json)) (name : String)

/-- What may come next. -/
inductive Position where
  /-- A value, or the end of an array that has none yet. -/
  | value (mayClose : Bool)
  /-- A name, or the end of an object that has none yet. -/
  | name (mayClose : Bool)
  /-- The colon after a name. -/
  | colon
  /-- A comma or the end of the container. -/
  | separator
  /-- Nothing: the text is complete. -/
  | finished (result : Json)

/-- The open containers, innermost first, and what may come next. -/
structure Reading where
  open_ : List Frame
  position : Position

namespace Reading

/-- Hands a complete value to the innermost container. -/
def complete (frames : List Frame) (value : Json) : Reading :=
  match frames with
  | [] => ⟨[], .finished value⟩
  | .items done :: outer => ⟨.items (value :: done) :: outer, .separator⟩
  | .members done name :: outer => ⟨.members (Keyed.insert name value done) name :: outer, .separator⟩

/-- Closes the innermost container if the token fits it. -/
def close (frames : List Frame) (token : Token) : Option Reading :=
  match frames, token with
  | .items done :: outer, .closeBracket => some (complete outer (.array done.reverse))
  | .members done _ :: outer, .closeBrace => some (complete outer (.object done))
  | _, _ => none

/-- One token. -/
def step (r : Reading) (token : Token) : Option Reading :=
  match r.position, token with
  | .value _, .literal value => some (complete r.open_ value)
  | .value _, .openBracket => some ⟨.items [] :: r.open_, .value true⟩
  | .value _, .openBrace => some ⟨.members [] "" :: r.open_, .name true⟩
  | .value true, token => close r.open_ token
  | .name _, .literal (.string name) =>
    match r.open_ with
    | .members done _ :: outer => some ⟨.members done name :: outer, .colon⟩
    | _ => none
  | .name true, token => close r.open_ token
  | .colon, .colon => some { r with position := .value false }
  | .separator, .comma =>
    match r.open_ with
    | .items _ :: _ => some { r with position := .value false }
    | .members _ _ :: _ => some { r with position := .name false }
    | [] => none
  | .separator, token => close r.open_ token
  | _, _ => none

/-- Runs over the tokens. -/
def run : Reading → List Token → Option Reading
  | r, [] => some r
  | r, token :: rest => (step r token).bind fun r => run r rest

end Reading

/-- The value that a text writes; nothing if it is no JSON text. -/
def read? (s : String) : Option Json :=
  ((Token.ofText? s.toList).bind (Reading.run ⟨[], .value false⟩)).bind fun r =>
    match r.position with
    | .finished value => some value
    | _ => none

end FieldGuard.Json
