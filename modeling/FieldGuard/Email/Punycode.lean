/-!
# `FieldGuard.Email.Punycode`: labels in ASCII

Punycode writes a label with ASCII characters only: the ASCII characters of the
label, then a hyphen, then for every other character, in the order of their code
points, how far the decoder has to move on to insert it.
-/

set_option autoImplicit false

namespace FieldGuard.Email.Punycode

/-- The digit of a number below thirty-six: a letter, then a decimal digit. -/
def digit (n : Nat) : Char :=
  if n < 26 then Char.ofNat ('a'.toNat + n) else Char.ofNat ('0'.toNat + n - 26)

/-- The threshold of a digit at a place, under a bias. -/
def threshold (place bias : Nat) : Nat :=
  if place ≤ bias then 1 else if bias + 26 ≤ place then 26 else place - bias

theorem one_le_threshold (place bias : Nat) : 1 ≤ threshold place bias := by
  unfold threshold
  split
  · omega
  · split <;> omega

/-- A number with variable thresholds, least digit first. -/
def writeNumber (bias place n : Nat) : List Char :=
  if _h : n < threshold place bias then [digit n]
  else
    let t := threshold place bias
    digit (t + (n - t) % (36 - t)) :: writeNumber bias (place + 36) ((n - t) / (36 - t))
termination_by n
decreasing_by
  have ht := one_le_threshold place bias
  have hdiv : (n - threshold place bias) / (36 - threshold place bias) ≤ n - threshold place bias :=
    Nat.div_le_self _ _
  omega

/-- Divides a distance until it is small, counting the places that this takes. -/
def shrink (place distance : Nat) : Nat × Nat :=
  if 455 < distance then shrink (place + 36) (distance / 35) else (place, distance)
termination_by distance
decreasing_by omega

/-- The bias after a distance has been written. -/
def adapt (distance count : Nat) (first : Bool) : Nat :=
  let d := if first then distance / 700 else distance / 2
  let (place, d) := shrink 0 (d + d / count)
  place + 36 * d / (d + 38)

/-- What the encoder keeps: the output so far, last character first, the distance
since the last insertion, the bias, and how many characters are written. -/
structure Encoder where
  output : List Char
  distance : Nat
  bias : Nat
  written : Nat

/-- One character of the label while the characters with code point `n` are inserted. -/
def Encoder.visit (n basic : Nat) (e : Encoder) (c : Char) : Encoder :=
  if c.toNat < n then { e with distance := e.distance + 1 }
  else if c.toNat = n then
    { output := (writeNumber e.bias 36 e.distance).reverse ++ e.output
      distance := 0
      bias := adapt e.distance (e.written + 1) (e.written == basic)
      written := e.written + 1 }
  else e

/-- Inserts the characters of each code point in turn; `next` is the least one not yet done. -/
def Encoder.insertAll (label : List Char) (basic : Nat) : Nat → Encoder → List Nat → Encoder
  | _, e, [] => e
  | next, e, n :: rest =>
    let e := { e with distance := e.distance + (n - next) * (e.written + 1) }
    let e := label.foldl (Encoder.visit n basic) e
    insertAll label basic (n + 1) { e with distance := e.distance + 1 } rest

/-- The code points of a label that are not ASCII, each once, in increasing order. -/
def foreign (label : List Char) : List Nat :=
  (((label.map Char.toNat).filter (128 ≤ ·)).mergeSort (· ≤ ·)).eraseDups

/-- The label in ASCII characters. -/
def encode (label : List Char) : List Char :=
  let basic := label.filter (·.toNat < 128)
  let start : List Char := if basic.isEmpty then [] else '-' :: basic.reverse
  (Encoder.insertAll label basic.length 128 ⟨start, 0, 72, basic.length⟩ (foreign label)).output.reverse

end FieldGuard.Email.Punycode
