/-!
# `FieldGuard.Text.Blank`: blank characters and trimming

A character is blank when it has the Unicode property `White_Space`. Trimming
drops the blanks at both ends of a text and nothing in between.

* `trim_eq_self`: what trimming leaves alone;
* `length_trim_le`: trimming never lengthens a text.
-/

set_option autoImplicit false

namespace FieldGuard.Text

/-- The characters with the Unicode property `White_Space`. -/
def isBlank (c : Char) : Bool :=
  let n := c.toNat
  (0x09 ≤ n && n ≤ 0x0d) || n == 0x20 || n == 0x85 || n == 0xa0 || n == 0x1680
    || (0x2000 ≤ n && n ≤ 0x200a) || n == 0x2028 || n == 0x2029 || n == 0x202f
    || n == 0x205f || n == 0x3000

/-- Drops the blanks at the end. -/
def trimRight (cs : List Char) : List Char :=
  (cs.reverse.dropWhile isBlank).reverse

/-- Drops the blanks at both ends. -/
def trim (cs : List Char) : List Char :=
  trimRight (cs.dropWhile isBlank)

/-- The text without the blanks at its ends. -/
def trimmed (s : String) : String :=
  String.ofList (trim s.toList)

/-- Whether the text has no character that is not blank. -/
def isAllBlank (s : String) : Bool :=
  s.toList.all isBlank

theorem length_dropWhile_le {α : Type} (p : α → Bool) (xs : List α) :
    (xs.dropWhile p).length ≤ xs.length :=
  (List.dropWhile_sublist p).length_le

theorem length_trimRight_le (cs : List Char) : (trimRight cs).length ≤ cs.length := by
  have h := length_dropWhile_le isBlank cs.reverse
  simpa [trimRight] using h

/-- Trimming never lengthens a text. -/
theorem length_trim_le (cs : List Char) : (trim cs).length ≤ cs.length :=
  Nat.le_trans (length_trimRight_le _) (length_dropWhile_le _ _)

/-- A text that neither begins nor ends with a blank is left alone. -/
theorem trim_eq_self {cs : List Char}
    (hfirst : ∀ c ∈ cs.head?, isBlank c = false) (hlast : ∀ c ∈ cs.getLast?, isBlank c = false) :
    trim cs = cs := by
  have keep : ∀ xs : List Char, (∀ c ∈ xs.head?, isBlank c = false) → xs.dropWhile isBlank = xs := by
    intro xs h
    cases xs with
    | nil => rfl
    | cons c r => simp [h c (by simp)]
  rw [trim, keep cs hfirst, trimRight, keep cs.reverse (by simpa using hlast), List.reverse_reverse]

end FieldGuard.Text
