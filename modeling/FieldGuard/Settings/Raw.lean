import FieldGuard.Json.Basic
import FieldGuard.Pattern.Category
import FieldGuard.Pattern.CaseFolding
import FieldGuard.Text.Cut

/-!
# `FieldGuard.Settings.Raw`: values that have not been converted

A tree of tables, with JSON at its leaves. Names are compared in lower case. What
is put on top replaces a single value and extends a table. A dotted name leads
into a table.

All of this is usually left to a library. Of the paths that such a one reads, those
with an index in brackets are not told from other names here: such a name is a single
one.
-/

set_option autoImplicit false

namespace FieldGuard.Settings

/-! ### Names -/

/-- A character in lower case. For most this is the case folding of a character with
an upper or title case; the folding of Cherokee goes the other way, and one capital
becomes two characters. -/
def loweredChar (c : Char) : List Char :=
  let n := c.toNat
  if n = 0x130 then ['i', '\u0307']
  else if 0x13a0 ≤ n ∧ n ≤ 0x13ef then [Char.ofNat (n + 0x97d0)]
  else if 0x13f0 ≤ n ∧ n ≤ 0x13f5 then [Char.ofNat (n + 8)]
  else
    match Pattern.Category.of c with
    | .uppercaseLetter | .titlecaseLetter | .letterNumber | .otherSymbol =>
      [Char.ofNat (Pattern.foldCode n)]
    | _ => [c]

/-- A name in lower case. -/
def lowered (name : String) : String :=
  String.ofList (name.toList.flatMap loweredChar)

/-- Whether the character may stand in a name of a path. -/
def isPathChar (c : Char) : Bool :=
  c.isAlphanum || c == '_' || c == '-'

/-- The names of a path; what is no path is one name. -/
def pathOf (name : String) : List String :=
  let pieces := Text.cut '.' (lowered name).toList
  if pieces.all fun piece => !piece.isEmpty && piece.all isPathChar then pieces.map String.ofList
  else [lowered name]

/-! ### Trees -/

/-- A value that has not been converted yet, with the layer it comes from. -/
inductive Raw where
  | value (json : Json) (origin : String)
  | table (members : List (String × Raw))
  deriving Inhabited

namespace Raw

/-- The members of a table; a single value has none. -/
def members : Raw → List (String × Raw)
  | .table members => members
  | .value _ _ => []

mutual

/-- Puts JSON on top of what is there. An object extends a table. -/
def overlay (origin : String) (below : Option Raw) : Json → Raw
  | .object [] => below.getD (.table [])
  | .object members => .table (overlayMembers origin ((below.map Raw.members).getD []) members)
  | json => .value json origin

/-- Puts the members of an object on top of a table. -/
def overlayMembers (origin : String) (below : List (String × Raw)) :
    List (String × Json) → List (String × Raw)
  | [] => below
  | (name, json) :: rest =>
    let name := lowered name
    let raw := overlay origin (Keyed.find? name below) json
    overlayMembers origin (Keyed.insert name raw below) rest

end

/-- Puts JSON at the end of a path of names. -/
def put (origin : String) (json : Json) : List String → Option Raw → Raw
  | [], below => overlay origin below json
  | name :: path, below =>
    let members := (below.map Raw.members).getD []
    .table (Keyed.insert name (put origin json path (Keyed.find? name members)) members)

end Raw

end FieldGuard.Settings
