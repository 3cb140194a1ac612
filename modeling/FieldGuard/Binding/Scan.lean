/-!
# `FieldGuard.Binding.Scan`: quotes and brackets

A scan over the inside of an expression keeps the quote it is in, if any, and
the bracket depth outside quotes. It can run forwards, where `[` opens, or
backwards, where `]` does. `isBalanced` is the forward test for a well-formed
inside; `cutBack` looks from the right for a place to cut.

* `length_cutBack_lt`: what lies left of a cut is shorter than the whole.
-/

set_option autoImplicit false

namespace FieldGuard.Binding

/-- Whether the character opens and closes a quoted key. -/
def isQuote (c : Char) : Bool :=
  c == '\'' || c == '"'

/-- Whether the character delimits an expression. -/
def isBrace (c : Char) : Bool :=
  c == '\x7b' || c == '\x7d'

/-- The quote that a scan is in, and the bracket depth. -/
structure Scan where
  depth : Int := 0
  quote : Option Char := none
  deriving DecidableEq, Repr

namespace Scan

/-- One character, where `opening` and `closing` are the brackets in scan direction. -/
def step (opening closing : Char) (s : Scan) (c : Char) : Scan :=
  match s.quote with
  | some q => if c = q then { s with quote := none } else s
  | none =>
    if isQuote c then { s with quote := some c }
    else if c = opening then { s with depth := s.depth + 1 }
    else if c = closing then { s with depth := s.depth - 1 }
    else s

/-- One character from left to right. -/
def forward : Scan → Char → Scan := step '[' ']'

/-- One character from right to left. -/
def backward : Scan → Char → Scan := step ']' '['

/-- Neither in a quote nor in brackets. -/
def isClosed (s : Scan) : Bool :=
  s.depth == 0 && s.quote.isNone

end Scan

/-- Whether the rest of a text closes all quotes and brackets, never closes more
than is open, and has no brace outside quotes. -/
def isBalancedFrom : Scan → List Char → Bool
  | s, [] => s.isClosed
  | s, c :: rest =>
    if s.quote.isNone && isBrace c then false
    else if (s.forward c).depth < 0 then false
    else isBalancedFrom (s.forward c) rest

/-- Whether quotes and brackets are balanced and no brace stands outside quotes. -/
def isBalanced (cs : List Char) : Bool :=
  isBalancedFrom {} cs

/-- Looks from the right for the first character at which `stops` holds. `left`
is what has not been passed yet, nearest first. Yields the texts on both sides of
that character. -/
def cutBack (stops : Scan → Char → Bool) :
    Scan → (left passed : List Char) → Option (List Char × List Char)
  | _, [], _ => none
  | s, c :: left, passed =>
    if stops s c then some (left.reverse, passed)
    else cutBack stops (s.backward c) left (c :: passed)

/-- The bracket that matches a closing one at the end of the text. -/
def opensLast (s : Scan) (c : Char) : Bool :=
  s.quote.isNone && c == '[' && s.depth == 1

/-- A dot outside quotes and brackets. -/
def isDot (s : Scan) (c : Char) : Bool :=
  s.quote.isNone && c == '.' && s.depth == 0

/-- What lies left of a cut is shorter than the whole, and so is what lies right of it. -/
theorem length_cutBack_lt {stops : Scan → Char → Bool} {s : Scan} {left passed before after : List Char}
    (h : cutBack stops s left passed = some (before, after)) :
    before.length + after.length + 1 = left.length + passed.length := by
  induction left generalizing s passed with
  | nil => simp [cutBack] at h
  | cons c left ih =>
    rw [cutBack] at h
    split at h
    · cases h
      simp only [List.length_reverse, List.length_cons]
      omega
    · have := ih h
      simp only [List.length_cons] at this ⊢
      omega

end FieldGuard.Binding
