import FieldGuard.Pattern.Escape

/-!
# `FieldGuard.Pattern.Bracket`: classes in brackets

Brackets hold characters, ranges, escapes, named ASCII classes and further
brackets. The operators `&&`, `--` and `~~` bind weaker than the union of what
stands side by side, and group to the left. The reader keeps the brackets that
are still open.
-/

set_option autoImplicit false

namespace FieldGuard.Pattern

/-- An operator between classes. -/
inductive ClassOperator where
  | intersection
  | difference
  | symmetricDifference
  deriving DecidableEq, Repr

/-- The class that an operator makes of two. -/
def ClassOperator.apply (op : ClassOperator) (a b : CharClass) : CharClass :=
  match op with
  | .intersection => .inter a b
  | .difference => .difference a b
  | .symmetricDifference => .symmetricDifference a b

/-- A bracket that is still open: what stands side by side since the last operator,
and the left side of that operator. -/
structure OpenBracket where
  negated : Bool
  items : CharClass := .none
  pending : Option (ClassOperator × CharClass) := none

namespace OpenBracket

/-- The bracket with one more item. -/
def add (b : OpenBracket) (item : CharClass) : OpenBracket :=
  { b with items := .union b.items item }

/-- The class of the bracket so far. -/
def total (b : OpenBracket) : CharClass :=
  match b.pending with
  | none => b.items
  | some (op, left) => op.apply left b.items

/-- The bracket after an operator. -/
def addOperator (b : OpenBracket) (op : ClassOperator) : OpenBracket :=
  { b with items := .none, pending := some (op, b.total) }

end OpenBracket

/-- The ASCII class of a name. -/
def asciiClass? : String → Option CharClass
  | "alnum" => some (.unions [.range '0' '9', .range 'A' 'Z', .range 'a' 'z'])
  | "alpha" => some (.unions [.range 'A' 'Z', .range 'a' 'z'])
  | "ascii" => some (.range '\x00' '\x7f')
  | "blank" => some (.unions [.single '\t', .single ' '])
  | "cntrl" => some (.unions [.range '\x00' '\x1f', .single '\x7f'])
  | "digit" => some (.range '0' '9')
  | "graph" => some (.range '!' '~')
  | "lower" => some (.range 'a' 'z')
  | "print" => some (.range ' ' '~')
  | "punct" => some (.unions [.range '!' '/', .range ':' '@', .range '[' (Char.ofNat 0x60),
      .range '\x7b' '~'])
  | "space" => some (.unions [.range '\t' '\r', .single ' '])
  | "upper" => some (.range 'A' 'Z')
  | "word" => some .asciiWord
  | "xdigit" => some (.unions [.range '0' '9', .range 'A' 'F', .range 'a' 'f'])
  | _ => none

/-- A named ASCII class such as `[:alpha:]`, after its bracket. -/
def namedClass? (flags : Flags) (cs : List Char) : Option (CharClass × List Char) :=
  match cs with
  | ':' :: rest =>
    let (negated, rest) :=
      match rest with
      | '^' :: rest => (true, rest)
      | rest => (false, rest)
    match rest.dropWhile (· != ':') with
    | ':' :: ']' :: after => do
      let cls ← asciiClass? (String.ofList (rest.takeWhile (· != ':')))
      let cls ← flags.leaf? cls true
      let cls ← flags.negate? negated cls
      some (cls, after)
    | _ => none
  | _ => none

/-- Literal hyphens at the start of a bracket, and what follows them. -/
def leadingHyphens (flags : Flags) (b : OpenBracket) (found : Bool) :
    List Char → Bool × OpenBracket × List Char
  | '-' :: rest => leadingHyphens flags (if found then b else b.add (.single '-')) true rest
  | cs => (found, b, cs)

/-- Opens a bracket, after its first character. A closing bracket at once is literal. -/
def openBracket? (flags : Flags) (cs : List Char) : Option (OpenBracket × List Char) :=
  let (negated, cs) :=
    match flags.skip cs with
    | '^' :: rest => (true, flags.skip rest)
    | cs => (false, cs)
  let (found, b, cs) := leadingHyphens flags { negated } false cs
  match flags.skip cs with
  | [] => none
  | ']' :: rest =>
    if found then some (b, ']' :: rest)
    else
      match flags.skip rest with
      | [] => none
      | rest => some (b.add (.single ']'), rest)
  | cs => some (b, cs)

/-- One character or escape of a bracket. -/
def bracketItem? (flags : Flags) : List Char → Option (Atom × List Char)
  | [] => none
  | '\\' :: rest => escape? flags rest
  | c :: rest => some (.char c, rest)

/-- One character, range or class of a bracket. -/
def bracketRange? (flags : Flags) (cs : List Char) : Option (CharClass × List Char) := do
  let (first, rest) ← bracketItem? flags cs
  let single : Option CharClass :=
    match first with
    | .char c => flags.leaf? (.single c) (c.toNat < 128)
    | .cls cls => some cls
    | .assert _ => none
  match flags.skip rest with
  | [] => none
  | '-' :: after =>
    match flags.skip after with
    | ']' :: _ | '-' :: _ => single.map (·, '-' :: after)
    | [] => none
    | after =>
      let (last, rest) ← bracketItem? flags after
      match first, last with
      | .char low, .char high =>
        if low ≤ high then
          (flags.leaf? (.range low high) (high.toNat < 128)).map (·, rest)
        else none
      | _, _ => none
  | rest => single.map (·, rest)

/-- The brackets that are open, innermost first. -/
structure Brackets where
  inner : OpenBracket
  outer : List OpenBracket := []

/-- A bracketed class that is complete, or brackets still open, and what follows. -/
abbrev BracketStep := (CharClass ⊕ Brackets) × List Char

/-- Reads one item, operator or bracket. -/
def Brackets.step? (flags : Flags) (b : Brackets) (cs : List Char) : Option BracketStep :=
  match flags.skip cs with
  | [] => none
  | '[' :: rest =>
    match namedClass? flags rest with
    | some (cls, rest) => some (.inr { b with inner := b.inner.add cls }, rest)
    | none => (openBracket? flags rest).map fun (inner, rest) => (.inr ⟨inner, b.inner :: b.outer⟩, rest)
  | ']' :: rest =>
    (flags.negate? b.inner.negated b.inner.total).map fun cls =>
      match b.outer with
      | [] => (.inl cls, rest)
      | next :: outer => (.inr ⟨next.add cls, outer⟩, rest)
  | '&' :: '&' :: rest => some (.inr { b with inner := b.inner.addOperator .intersection }, rest)
  | '-' :: '-' :: rest => some (.inr { b with inner := b.inner.addOperator .difference }, rest)
  | '~' :: '~' :: rest =>
    some (.inr { b with inner := b.inner.addOperator .symmetricDifference }, rest)
  | cs =>
    (bracketRange? flags cs).map fun (cls, rest) => (.inr { b with inner := b.inner.add cls }, rest)

/-- Reads up to the end of the outermost bracket. Every step reads a character, so
the length of the text bounds their number. -/
def Brackets.run? (flags : Flags) : Nat → Brackets → List Char → Option (CharClass × List Char)
  | 0, _, _ => none
  | fuel + 1, b, cs =>
    match b.step? flags cs with
    | none => none
    | some (.inl cls, rest) => some (cls, rest)
    | some (.inr b, rest) => run? flags fuel b rest

/-- A class in brackets, after the opening one. -/
def bracketed? (flags : Flags) (cs : List Char) : Option (CharClass × List Char) := do
  let (inner, rest) ← openBracket? flags cs
  Brackets.run? flags (rest.length + 1) { inner } rest

end FieldGuard.Pattern
