import FieldGuard.Pattern.Expression
import FieldGuard.Pattern.PropertyName

/-!
# `FieldGuard.Pattern.Escape`: what follows a backslash

An escape is a character, a class of characters or an assertion. Its meaning
depends on the flags in force. Back references and escapes without a meaning are
refused.
-/

set_option autoImplicit false

namespace FieldGuard.Pattern

/-- The flags in force at a place of a pattern. -/
structure Flags where
  caseless : Bool := false
  multiLine : Bool := false
  /-- The dot stands for line feeds too. -/
  dotAll : Bool := false
  /-- A carriage return ends lines too. -/
  crlf : Bool := false
  /-- Blanks and comments mean nothing. -/
  verbose : Bool := false
  /-- Classes know all of Unicode, not only ASCII. -/
  unicode : Bool := true
  deriving DecidableEq, Repr, Inhabited

/-- What one escape stands for. -/
inductive Atom where
  | char (c : Char)
  | cls (c : CharClass)
  | assert (a : Assertion)
  deriving DecidableEq, Repr, Inhabited

/-! ### Reading -/

/-- Skips blanks, and comments up to the end of their line. -/
def skipVerbose (inComment : Bool) : List Char → List Char
  | [] => []
  | c :: rest =>
    if inComment then skipVerbose (c != '\n') rest
    else if Text.isBlank c then skipVerbose false rest
    else if c == '#' then skipVerbose true rest
    else c :: rest

namespace Flags

/-- Skips what means nothing under the flags. -/
def skip (flags : Flags) (cs : List Char) : List Char :=
  if flags.verbose then skipVerbose false cs else cs

/-- Splits off the characters with a property, skipping between them what means nothing. -/
def takeWhile (flags : Flags) (p : Char → Bool) (inComment : Bool) :
    List Char → List Char × List Char
  | [] => ([], [])
  | c :: rest =>
    if inComment then flags.takeWhile p (c != '\n') rest
    else if flags.verbose && Text.isBlank c then flags.takeWhile p false rest
    else if flags.verbose && c == '#' then flags.takeWhile p true rest
    else if p c then
      let (taken, left) := flags.takeWhile p false rest
      (c :: taken, left)
    else ([], c :: rest)

/-- A class of literal characters under the flags: with the case variants, if case
does not matter. Without Unicode it may hold ASCII characters only. -/
def leaf? (flags : Flags) (cls : CharClass) (isAscii : Bool) : Option CharClass :=
  match flags.unicode, flags.caseless with
  | true, true => some (.caseless cls)
  | true, false => some cls
  | false, caseless =>
    if isAscii then
      some (if caseless then .inter (.caseless cls) (.property .ascii) else cls)
    else none

/-- The complement of a class; without Unicode it would hold more than characters. -/
def negate? (flags : Flags) (negated : Bool) (cls : CharClass) : Option CharClass :=
  if negated then if flags.unicode then some (.complement cls) else none
  else some cls

/-- The characters of words. -/
def word (flags : Flags) : CharClass :=
  if flags.unicode then .property .word else .asciiWord

/-- The decimal digits. -/
def digit (flags : Flags) : CharClass :=
  if flags.unicode then .property .decimalDigit else .range '0' '9'

/-- The blanks. -/
def space (flags : Flags) : CharClass :=
  if flags.unicode then .property .whiteSpace
  else .unions [.range '\t' '\r', .single ' ']

end Flags

/-! ### Numbers -/

/-- Value of a hexadecimal digit. -/
def hexValue? (c : Char) : Option Nat :=
  if '0' ≤ c ∧ c ≤ '9' then some (c.toNat - '0'.toNat)
  else if 'a' ≤ c ∧ c ≤ 'f' then some (c.toNat - 'a'.toNat + 10)
  else if 'A' ≤ c ∧ c ≤ 'F' then some (c.toNat - 'A'.toNat + 10)
  else none

/-- The number that hexadecimal digits denote. -/
def hexNumber? (cs : List Char) : Option Nat :=
  cs.foldl (fun n c => n.bind fun n => (hexValue? c).map (n * 16 + ·)) (some 0)

/-- The character of a code point. -/
def charOf? (n : Nat) : Option Char :=
  if n.isValidChar then some (Char.ofNat n) else none

/-- Splits off a fixed number of hexadecimal digits. -/
def takeHex? (flags : Flags) : Nat → List Char → Option (List Char × List Char)
  | 0, cs => some ([], cs)
  | _ + 1, [] => none
  | n + 1, c :: rest =>
    if (hexValue? c).isSome then
      (takeHex? flags n (flags.skip rest)).map fun (taken, left) => (c :: taken, left)
    else none

/-- A text up to the closing brace, and what follows the brace. -/
def braced? (flags : Flags) (cs : List Char) : Option (List Char × List Char) :=
  match flags.takeWhile (· != '\x7d') false cs with
  | (inside, _ :: rest) => some (inside, rest)
  | (_, []) => none

/-- The character written by its code point: in braces, or with so many digits. -/
def codePoint? (flags : Flags) (digits : Nat) (cs : List Char) : Option (Atom × List Char) :=
  match flags.skip cs with
  | '\x7b' :: rest => do
    let (inside, rest) ← braced? flags rest
    if inside.isEmpty then none
    else
      let c ← (hexNumber? inside).bind charOf?
      some (.char c, rest)
  | cs => do
    let (inside, rest) ← takeHex? flags digits cs
    let c ← (hexNumber? inside).bind charOf?
    if digits = 2 ∧ 128 ≤ c.toNat ∧ !flags.unicode then none else some (.char c, rest)

/-! ### Escapes -/

/-- A class of characters with a property. -/
def propertyClass? (flags : Flags) (negated : Bool) (name : List Char) : Option Atom := do
  let cls ← Property.classOf? name
  let cls ← flags.leaf? cls false
  let cls ← flags.negate? negated cls
  some (.cls cls)

/-- The class named after `\p`. -/
def property? (flags : Flags) (negated : Bool) (cs : List Char) : Option (Atom × List Char) :=
  match flags.skip cs with
  | [] => none
  | '\x7b' :: rest => do
    let (name, rest) ← braced? flags rest
    let atom ← propertyClass? flags negated name
    some (atom, rest)
  | c :: rest =>
    if c == '\\' then none else (propertyClass? flags negated [c]).map (·, rest)

/-- The word boundary of a name in braces. -/
def namedBoundary? (word : CharClass) : String → Option Assertion
  | "start" => some (.wordStart word)
  | "end" => some (.wordEnd word)
  | "start-half" => some (.wordStartHalf word)
  | "end-half" => some (.wordEndHalf word)
  | _ => none

/-- Whether the character may stand in the name of a word boundary. -/
def isBoundaryChar (c : Char) : Bool :=
  c.isAlpha || c == '-'

/-- A word boundary. Braces that do not begin with a letter are left to follow it. -/
def boundary? (flags : Flags) (cs : List Char) : Option (Atom × List Char) :=
  match cs with
  | '\x7b' :: rest =>
    match flags.skip rest with
    | [] => none
    | c :: _ =>
      if isBoundaryChar c then
        match flags.takeWhile isBoundaryChar false rest with
        | (name, '\x7d' :: after) =>
          (namedBoundary? flags.word (String.ofList name)).map fun a => (.assert a, after)
        | _ => none
      else some (.assert (.wordBoundary flags.word), cs)
  | _ => some (.assert (.wordBoundary flags.word), cs)

/-- Whether the character has a meaning of its own in patterns. -/
def isMeta (c : Char) : Bool :=
  "\\.+*?()|[]\x7b\x7d^$#&-~".contains c

/-- Whether the character stands for itself after a backslash. -/
def isEscapable (c : Char) : Bool :=
  isMeta c || (c.toNat < 128 && !c.isAlphanum && c != '<' && c != '>')

/-- The escape after a backslash, and what follows it. -/
def escape? (flags : Flags) : List Char → Option (Atom × List Char)
  | [] => none
  | c :: rest =>
    let classOf := fun (negated : Bool) (cls : CharClass) =>
      (flags.negate? negated cls).map fun cls => (Atom.cls cls, rest)
    match c with
    | 'x' => codePoint? flags 2 rest
    | 'u' => codePoint? flags 4 rest
    | 'U' => codePoint? flags 8 rest
    | 'p' => property? flags false rest
    | 'P' => property? flags true rest
    | 'd' => classOf false flags.digit
    | 'D' => classOf true flags.digit
    | 's' => classOf false flags.space
    | 'S' => classOf true flags.space
    | 'w' => classOf false flags.word
    | 'W' => classOf true flags.word
    | 'a' => some (.char '\x07', rest)
    | 'f' => some (.char '\x0c', rest)
    | 't' => some (.char '\t', rest)
    | 'n' => some (.char '\n', rest)
    | 'r' => some (.char '\r', rest)
    | 'v' => some (.char '\x0b', rest)
    | 'A' => some (.assert .textStart, rest)
    | 'z' => some (.assert .textEnd, rest)
    | 'b' => boundary? flags rest
    | 'B' => some (.assert (.noWordBoundary flags.word), rest)
    | '<' => some (.assert (.wordStart flags.word), rest)
    | '>' => some (.assert (.wordEnd flags.word), rest)
    | c => if isEscapable c then some (.char c, rest) else none

end FieldGuard.Pattern
