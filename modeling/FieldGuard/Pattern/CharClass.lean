import FieldGuard.Pattern.CaseFolding
import FieldGuard.Pattern.Category
import FieldGuard.Pattern.Script
import FieldGuard.Text.Blank

/-!
# `FieldGuard.Pattern.CharClass`: classes of characters

A class is built from ranges and named properties by union, intersection and
complement. A class without regard to case holds every case variant of its
characters.
-/

set_option autoImplicit false

namespace FieldGuard.Pattern

/-- A property that characters have or have not. -/
inductive Property where
  | any
  | ascii
  | assigned
  | alphabetic
  | lowercase
  | uppercase
  | whiteSpace
  | decimalDigit
  /-- A character of a word: alphabetic, a mark, a digit, a connector or a joiner. -/
  | word
  | categories (categories : List Category)
  | script (script : Script)
  deriving DecidableEq, Repr, Inhabited

namespace Property

/-- Whether the character has the property `Alphabetic`. -/
def isAlphabetic (c : Char) : Bool :=
  let category := Category.of c
  category.isLetter || category == .letterNumber || inRanges otherAlphabetic c.toNat

/-- Whether the character belongs to words. -/
def isWord (c : Char) : Bool :=
  let category := Category.of c
  category.isLetter || category.isMark || category == .decimalNumber || category == .letterNumber
    || category == .connectorPunctuation || inRanges otherAlphabetic c.toNat
    || c.toNat == 0x200c || c.toNat == 0x200d

/-- Whether the character has the property. -/
def holds : Property → Char → Bool
  | any, _ => true
  | ascii, c => c.toNat < 128
  | assigned, c => Category.of c != .unassigned
  | alphabetic, c => isAlphabetic c
  | lowercase, c => Category.of c == .lowercaseLetter || inRanges otherLowercase c.toNat
  | uppercase, c => Category.of c == .uppercaseLetter || inRanges otherUppercase c.toNat
  | whiteSpace, c => Text.isBlank c
  | decimalDigit, c => Category.of c == .decimalNumber
  | word, c => isWord c
  | categories wanted, c => wanted.contains (Category.of c)
  | script s, c => inRanges s.ranges c.toNat

end Property

/-- A class of characters. -/
inductive CharClass where
  | none
  | range (low high : Char)
  | property (p : Property)
  | union (a b : CharClass)
  | inter (a b : CharClass)
  | complement (a : CharClass)
  /-- The case variants of the characters of a class. -/
  | caseless (a : CharClass)
  deriving DecidableEq, Repr, Inhabited

namespace CharClass

/-- Whether the character belongs to the class. -/
def contains : CharClass → Char → Bool
  | none, _ => false
  | range low high, c => low ≤ c && c ≤ high
  | property p, c => p.holds c
  | union a b, c => a.contains c || b.contains c
  | inter a b, c => a.contains c && b.contains c
  | complement a, c => !a.contains c
  | caseless a, c => (variants c).any a.contains

/-- The class of one character. -/
def single (c : Char) : CharClass :=
  range c c

/-- The union of many classes. -/
def unions (classes : List CharClass) : CharClass :=
  classes.foldr union none

/-- The characters of the first class that are not in the second. -/
def difference (a b : CharClass) : CharClass :=
  inter a (complement b)

/-- The characters of just one of two classes. -/
def symmetricDifference (a b : CharClass) : CharClass :=
  union (difference a b) (difference b a)

/-- The letters, digits and the underscore of ASCII. -/
def asciiWord : CharClass :=
  unions [range 'a' 'z', range 'A' 'Z', range '0' '9', single '_']

end CharClass

end FieldGuard.Pattern
