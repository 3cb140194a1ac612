import FieldGuard.Json.Reader
import FieldGuard.Number.Reading
import FieldGuard.Text.Cut

/-!
# `FieldGuard.Settings.Table`: reading the file of settings

The file has one pair of name and value on a line, and headers in brackets that
name the table of the lines below. A name may be dotted and may be quoted. A value
is a text in double or single quotes, a truth value, a number or an array on one
line. What follows a `#` outside quotes is a comment.

This is the part of the TOML format that a table of settings needs, not the whole of
it. Multi-line texts and arrays, inline tables, arrays of tables, dates and numbers in
other bases are refused here; a value may also be written as JSON, and a header may
come twice.
-/

set_option autoImplicit false

namespace FieldGuard.Settings.Table

/-- Drops a comment; `quote` is the quote that the text is in, if any. -/
def dropComment (quote : Option Char) : List Char → List Char
  | [] => []
  | c :: rest =>
    match quote with
    | some q => c :: dropComment (if c = q then none else quote) rest
    | none =>
      if c = '#' then []
      else c :: dropComment (if c = '"' ∨ c = '\'' then some c else none) rest

/-- The lines of a text, without comments and the blanks around them. -/
def linesOf (text : String) : List (List Char) :=
  (Text.cut '\n' text.toList).map fun line => Text.trim (dropComment none line)

/-- A quoted text, or none. -/
def quoted? (cs : List Char) : Option String :=
  match cs with
  | '\'' :: rest =>
    if rest.getLast? = some '\'' ∧ !rest.dropLast.contains '\'' then
      some (String.ofList rest.dropLast)
    else none
  | '"' :: _ => (Json.read? (String.ofList cs)).bind Json.asString?
  | _ => none

/-- One name: quoted, or letters, digits, underscores and hyphens. -/
def name? (cs : List Char) : Option String :=
  let cs := Text.trim cs
  (quoted? cs).or
    (if !cs.isEmpty && cs.all fun c => c.isAlphanum || c == '_' || c == '-' then
      some (String.ofList cs)
    else none)

/-- The pieces of a text between the occurrences of a separator outside quotes. -/
def cutUnquoted (sep : Char) (quote : Option Char) : List Char → List (List Char)
  | [] => [[]]
  | c :: rest =>
    let inQuote :=
      match quote with
      | some q => if c = q then none else quote
      | none => if c = '"' ∨ c = '\'' then some c else none
    match quote.isNone && c == sep, cutUnquoted sep inQuote rest with
    | true, pieces => [] :: pieces
    | false, [] => [[c]]
    | false, piece :: pieces => (c :: piece) :: pieces

/-- The names of a dotted path. -/
def path? (cs : List Char) : Option (List String) :=
  (cutUnquoted '.' none cs).mapM name?

/-- The value that a text writes. -/
def value? (cs : List Char) : Option Json :=
  let plain := String.ofList (cs.filter (· != '_'))
  (quoted? cs).map Json.string
    |>.or ((Number.readInt64? plain).map fun n => Json.int n.toInt)
    |>.or ((Number.readFloat? plain).map Json.float)
    |>.or (Json.read? (String.ofList cs))

/-- Puts a value at the end of a path of names; nothing if a value stands in the way. -/
def put? (value : Json) : List String → List (String × Json) → Option (List (String × Json))
  | [], _ => none
  | [name], members =>
    if (Keyed.find? name members).isSome then none else some (Keyed.insert name value members)
  | name :: path, members =>
    match (Keyed.find? name members).getD (.object []) with
    | .object inner => (put? value path inner).map fun inner => Keyed.insert name (.object inner) members
    | _ => none

/-- Reads the lines below a header, given what has been read. -/
def readLines? (header : List String) (members : List (String × Json)) :
    List (List Char) → Option (List (String × Json))
  | [] => some members
  | [] :: rest => readLines? header members rest
  | ('[' :: line) :: rest =>
    if line.getLast? = some ']' then
      (path? line.dropLast).bind fun header => readLines? header members rest
    else none
  | line :: rest =>
    match cutUnquoted '=' none line with
    | [name, value] => do
      let path ← path? name
      let value ← value? (Text.trim value)
      let members ← put? value (header ++ path) members
      readLines? header members rest
    | _ => none

/-- The table that a text writes. -/
def read? (text : String) : Option (List (String × Json)) :=
  readLines? [] [] (linesOf text)

end FieldGuard.Settings.Table
