import FieldGuard.Number.Reading
import FieldGuard.Pattern.Bracket

/-!
# `FieldGuard.Pattern.Parser`: reading regular expressions

The reader keeps the groups that are still open, each with the alternatives that
are complete and the pieces of the current one. Flags set inside a group hold to
its end. A repetition applies to the piece before it; one without a piece, or
right after flags, is refused, as are look-around, back references and two
groups of one name.
-/

set_option autoImplicit false

namespace FieldGuard.Pattern

/-- A group that is still open. A piece that only sets flags is `none`. -/
structure OpenGroup where
  /-- The flags in force before the group. -/
  outside : Flags
  alternatives : List Expression := []
  pieces : List (Option Expression) := []

namespace OpenGroup

/-- The pieces since the last bar, one after the other. -/
def sequence (g : OpenGroup) : Expression :=
  (g.pieces.filterMap id).foldl (fun rest piece => piece.followedBy rest) .empty

/-- The whole group so far. -/
def expression (g : OpenGroup) : Expression :=
  g.alternatives.foldl (fun rest alternative => .alt alternative rest) g.sequence

/-- The group with one more piece. -/
def add (g : OpenGroup) (piece : Expression) : OpenGroup :=
  { g with pieces := some piece :: g.pieces }

/-- The group after a bar. -/
def bar (g : OpenGroup) : OpenGroup :=
  { g with alternatives := g.sequence :: g.alternatives, pieces := [] }

/-- The group with its last piece repeated. -/
def repeatLast? (g : OpenGroup) (min : Nat) (extra : Option Nat) : Option OpenGroup :=
  match g.pieces with
  | some piece :: rest => some { g with pieces := some (.repeat piece min extra) :: rest }
  | _ => none

end OpenGroup

/-- What the reader knows: the flags in force, the names of groups, and the groups
that are open, innermost first. -/
structure Parser where
  flags : Flags := {}
  names : List String := []
  inner : OpenGroup := { outside := {} }
  outer : List OpenGroup := []

/-! ### Flags and names of groups -/

/-- Flags with one of them set or cleared. -/
def Flags.set? (flags : Flags) (on : Bool) : Char → Option Flags
  | 'i' => some { flags with caseless := on }
  | 'm' => some { flags with multiLine := on }
  | 's' => some { flags with dotAll := on }
  | 'u' => some { flags with unicode := on }
  | 'R' => some { flags with crlf := on }
  | 'x' => some { flags with verbose := on }
  | 'U' => some flags
  | _ => none

/-- Reads flags up to the end of the group or to the colon. A hyphen clears those
that follow it; none may occur twice. -/
def readFlags? (flags : Flags) (on : Bool) (seen : List Char) :
    List Char → Option (Flags × Char × List Char)
  | [] => none
  | c :: rest =>
    if c == ':' || c == ')' then
      if seen.head? == some '-' || (seen.isEmpty && c == ')') then none else some (flags, c, rest)
    else if seen.contains c then none
    else if c == '-' then readFlags? flags false (c :: seen) rest
    else (flags.set? on c).bind fun flags => readFlags? flags on (c :: seen) rest

/-- Whether the character may begin the name of a group. -/
def isNameStart (c : Char) : Bool :=
  c == '_' || Property.isAlphabetic c

/-- Whether the character may stand in the name of a group. -/
def isNameChar (c : Char) : Bool :=
  isNameStart c || c == '.' || c == '[' || c == ']'
    || [Category.decimalNumber, .letterNumber, .otherNumber].contains (Category.of c)

/-- The name of a group up to its closing angle, and what follows. -/
def groupName? (cs : List Char) : Option (String × List Char) :=
  match cs.takeWhile (· != '>'), cs.dropWhile (· != '>') with
  | first :: more, _ :: rest =>
    if isNameStart first && more.all isNameChar then some (String.ofList (first :: more), rest)
    else none
  | _, _ => none

/-! ### Repetition counts -/

/-- A whole number below 2 ^ 32 between blanks; `none` inside if there are no digits. -/
def count? (flags : Flags) (cs : List Char) : Option (Option Nat × List Char) :=
  let (digits, rest) := flags.takeWhile Number.isDigit false (cs.dropWhile Text.isBlank)
  let rest := rest.dropWhile Text.isBlank
  if digits.isEmpty then some (none, rest)
  else if Number.ofDigits digits < Nat.pow 2 32 then some (some (Number.ofDigits digits), rest)
  else none

/-- The counts between braces as least number and what may be added, after the
opening brace. -/
def counts? (flags : Flags) (cs : List Char) : Option ((Nat × Option Nat) × List Char) := do
  let (least, rest) ← count? flags (flags.skip cs)
  let least ← least
  match rest with
  | '\x7d' :: rest => some ((least, some 0), rest)
  | ',' :: rest =>
    match flags.skip rest with
    | '\x7d' :: rest => some ((least, none), rest)
    | rest =>
      let (most, rest) ← count? flags rest
      let most ← most
      match rest with
      | '\x7d' :: rest => if least ≤ most then some ((least, some (most - least)), rest) else none
      | _ => none
  | _ => none

/-- Drops the question mark that makes a repetition lazy. -/
def dropLazy (cs : List Char) : List Char :=
  match cs with
  | '?' :: rest => rest
  | cs => cs

/-! ### Groups -/

namespace Parser

/-- Opens a group that is read under the given flags. -/
def openGroup (p : Parser) (flags : Flags) : Parser :=
  { p with flags, inner := { outside := p.flags }, outer := p.inner :: p.outer }

/-- Opens a group of a new name. -/
def openNamed? (p : Parser) (cs : List Char) : Option (Parser × List Char) := do
  let (name, rest) ← groupName? cs
  if p.names.contains name then none
  else some ({ p with names := name :: p.names }.openGroup p.flags, rest)

/-- What follows an opening parenthesis. -/
def group? (p : Parser) (cs : List Char) : Option (Parser × List Char) :=
  match p.flags.skip cs with
  | '?' :: 'P' :: '<' :: rest => p.openNamed? rest
  | '?' :: '<' :: rest => p.openNamed? rest
  | '?' :: rest =>
    (readFlags? p.flags true [] rest).map fun (flags, stop, rest) =>
      if stop == ':' then (p.openGroup flags, rest)
      else ({ p with flags, inner := { p.inner with pieces := none :: p.inner.pieces } }, rest)
  | rest => some (p.openGroup p.flags, rest)

/-- Closes the innermost group. -/
def close? (p : Parser) : Option Parser :=
  match p.outer with
  | [] => none
  | next :: outer =>
    some { p with flags := p.inner.outside, inner := next.add p.inner.expression, outer }

/-- The reader with one more piece. -/
def add (p : Parser) (piece : Expression) : Parser :=
  { p with inner := p.inner.add piece }

/-- The reader with its last piece repeated. -/
def repeatLast? (p : Parser) (min : Nat) (extra : Option Nat) : Option Parser :=
  (p.inner.repeatLast? min extra).map fun inner => { p with inner }

/-- What the dot stands for. -/
def dot? (flags : Flags) : Option CharClass :=
  if !flags.unicode then none
  else if flags.dotAll then some (.property .any)
  else some (.complement (if flags.crlf then .unions [.single '\n', .single '\r'] else .single '\n'))

/-- The expression of a literal character. -/
def literal? (flags : Flags) (c : Char) : Option Expression :=
  if flags.caseless then (flags.leaf? (.single c) (c.toNat < 128)).map .char
  else some (.char (.single c))

/-- The expression of an escape. -/
def ofAtom? (flags : Flags) : Atom → Option Expression
  | .char c => literal? flags c
  | .cls cls => some (.char cls)
  | .assert a => some (.assert a)

/-- Reads one piece, operator or parenthesis. -/
def step? (p : Parser) : List Char → Option (Parser × List Char)
  | [] => none
  | '(' :: rest => p.group? rest
  | ')' :: rest => p.close?.map (·, rest)
  | '|' :: rest => some ({ p with inner := p.inner.bar }, rest)
  | '[' :: rest => (bracketed? p.flags rest).map fun (cls, rest) => (p.add (.char cls), rest)
  | '?' :: rest => (p.repeatLast? 0 (some 1)).map (·, dropLazy rest)
  | '*' :: rest => (p.repeatLast? 0 none).map (·, dropLazy rest)
  | '+' :: rest => (p.repeatLast? 1 none).map (·, dropLazy rest)
  | '\x7b' :: rest => do
    let ((min, extra), rest) ← counts? p.flags rest
    let p ← p.repeatLast? min extra
    some (p, dropLazy (p.flags.skip rest))
  | '\\' :: rest => do
    let (atom, rest) ← escape? p.flags rest
    let piece ← ofAtom? p.flags atom
    some (p.add piece, rest)
  | '.' :: rest => (dot? p.flags).map fun cls => (p.add (.char cls), rest)
  | '^' :: rest =>
    some (p.add (.assert (if p.flags.multiLine then .lineStart p.flags.crlf else .textStart)), rest)
  | '$' :: rest =>
    some (p.add (.assert (if p.flags.multiLine then .lineEnd p.flags.crlf else .textEnd)), rest)
  | c :: rest => (literal? p.flags c).map fun piece => (p.add piece, rest)

/-- Reads to the end. Every step reads a character, so the length of the text bounds
their number. -/
def run? : Nat → Parser → List Char → Option Parser
  | 0, _, _ => none
  | fuel + 1, p, cs =>
    match p.flags.skip cs with
    | [] => some p
    | cs => (p.step? cs).bind fun (p, rest) => run? fuel p rest

end Parser

/-- The regular expression that a text writes; nothing if it writes none. -/
def Expression.read? (text : List Char) : Option Expression :=
  (Parser.run? (text.length + 1) {} text).bind fun p =>
    if p.outer.isEmpty then some p.inner.expression else none

end FieldGuard.Pattern
