import FieldGuard.Pattern.CharClass

/-!
# `FieldGuard.Pattern.Expression`: regular expressions

An expression matches a piece of a text, given the characters before and after
the piece, which assertions look at. The matcher keeps a list of expressions, of
which one has to match the rest of the piece: `after` yields what is left of an
expression once a character has been read.

* `empty` loops are harmless, as `after` yields only what reads a character;
* `occursIn`: whether some piece of a text matches.
-/

set_option autoImplicit false

namespace FieldGuard.Pattern

/-- A condition on the characters before and after a place in a text. -/
inductive Assertion where
  | textStart
  | textEnd
  /-- Start of the text or of a line; with `crlf` a carriage return ends lines too. -/
  | lineStart (crlf : Bool)
  /-- End of the text or of a line; with `crlf` a carriage return ends lines too. -/
  | lineEnd (crlf : Bool)
  | wordBoundary (word : CharClass)
  | noWordBoundary (word : CharClass)
  | wordStart (word : CharClass)
  | wordEnd (word : CharClass)
  | wordStartHalf (word : CharClass)
  | wordEndHalf (word : CharClass)
  deriving DecidableEq, Repr, Inhabited

/-- The characters before and after a place in a text. -/
structure Place where
  before : Option Char
  after : Option Char
  deriving DecidableEq, Repr, Inhabited

namespace Assertion

/-- Whether there is a character of the class. -/
def isIn (word : CharClass) (c : Option Char) : Bool :=
  c.any word.contains

/-- Whether the condition holds at a place. -/
def holds (place : Place) : Assertion → Bool
  | textStart => place.before.isNone
  | textEnd => place.after.isNone
  | lineStart crlf =>
    match place.before with
    | none => true
    | some '\n' => true
    | some '\r' => crlf && place.after != some '\n'
    | some _ => false
  | lineEnd crlf =>
    match place.after with
    | none => true
    | some '\r' => crlf
    | some '\n' => !(crlf && place.before == some '\r')
    | some _ => false
  | wordBoundary word => isIn word place.before != isIn word place.after
  | noWordBoundary word => isIn word place.before == isIn word place.after
  | wordStart word => !isIn word place.before && isIn word place.after
  | wordEnd word => isIn word place.before && !isIn word place.after
  | wordStartHalf word => !isIn word place.before
  | wordEndHalf word => !isIn word place.after

end Assertion

/-- A regular expression. -/
inductive Expression where
  | empty
  | char (c : CharClass)
  | assert (a : Assertion)
  | seq (e f : Expression)
  | alt (e f : Expression)
  /-- At least `min` repetitions; `extra` more at most, or any number. -/
  | repeat (e : Expression) (min : Nat) (extra : Option Nat)
  deriving DecidableEq, Repr, Inhabited

namespace Expression

/-- Whether the expression matches the empty piece at a place. -/
def matchesEmpty (place : Place) : Expression → Bool
  | empty => true
  | char _ => false
  | assert a => a.holds place
  | seq e f => e.matchesEmpty place && f.matchesEmpty place
  | alt e f => e.matchesEmpty place || f.matchesEmpty place
  | .repeat e min _ => min == 0 || e.matchesEmpty place

/-- One expression after another; after the empty one just the other. -/
def followedBy (e f : Expression) : Expression :=
  match e with
  | empty => f
  | e => seq e f

/-- What is left of a repetition after one round that reads a character. Where the
expression matches the empty piece, the rounds still owed count as done there. -/
def nextRounds (place : Place) (e : Expression) (min : Nat) (extra : Option Nat) :
    Option Expression :=
  match min, extra with
  | 0, none => some (.repeat e 0 none)
  | 0, some 0 => none
  | 0, some (more + 1) => some (if more = 0 then empty else .repeat e 0 (some more))
  | owed + 1, extra =>
    if e.matchesEmpty place then some (.repeat e 0 (extra.map (· + owed)))
    else if owed = 0 ∧ extra = some 0 then some empty
    else some (.repeat e owed extra)

/-- What is left of the expression after reading `c` at a place; one of the results
has to match the rest. -/
def after (place : Place) (c : Char) : Expression → List Expression
  | empty => []
  | char cls => if cls.contains c then [empty] else []
  | assert _ => []
  | seq e f =>
    (e.after place c).map (followedBy · f)
      ++ (if e.matchesEmpty place then f.after place c else [])
  | alt e f => e.after place c ++ f.after place c
  | .repeat e min extra =>
    match nextRounds place e min extra with
    | none => []
    | some rest => (e.after place c).map (followedBy · rest)

/-- Keeps one of several equal expressions. -/
def distinct (es : List Expression) : List Expression :=
  es.foldr (fun e kept => if kept.contains e then kept else e :: kept) []

/-- Whether a piece of the text matches `goal`, or one at its start matches one of
the expressions under way. -/
def searchFrom (goal : Expression) (before : Option Char) (underWay : List Expression) :
    List Char → Bool
  | [] => (goal :: underWay).any (matchesEmpty ⟨before, none⟩)
  | c :: rest =>
    let place : Place := ⟨before, some c⟩
    (goal :: underWay).any (matchesEmpty place)
      || searchFrom goal (some c) (distinct ((goal :: underWay).flatMap (after place c))) rest

/-- Whether some piece of the text matches. -/
def occursIn (e : Expression) (text : List Char) : Bool :=
  searchFrom e none [] text

end Expression

end FieldGuard.Pattern
