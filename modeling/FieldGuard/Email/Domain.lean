import FieldGuard.Email.Ip
import FieldGuard.Email.Punycode
import FieldGuard.Pattern.CharClass

/-!
# `FieldGuard.Email.Domain`: domains of mail addresses

A domain is a dotted sequence of labels: up to 63 letters, digits and hyphens,
with neither end a hyphen. It may also end in an IP address in brackets. A domain
with other characters stands for its form in ASCII, if it has one.

That form is less than what the standard for international names (UTS 46) asks for.
Characters are dropped, folded to small letters, and taken from their full-width
forms; other compatibility mappings are not made and texts are not normalised. A
label may not begin with a mark, but the rules for joiners and for the direction of
writing are not checked. No result depends on what lies between the two.
-/

set_option autoImplicit false

namespace FieldGuard.Email

/-- Letters and digits, and what differs from them only in case. -/
def isLetterOrDigit (c : Char) : Bool :=
  (Pattern.variants c).any Char.isAlphanum

/-- Letters, digits and inner hyphens, at most sixty-three of them. -/
def isLabel (cs : List Char) : Bool :=
  cs.length ≤ 63 && cs.head?.any isLetterOrDigit && cs.getLast?.any isLetterOrDigit
    && cs.all fun c => isLetterOrDigit c || c == '-'

/-- Whether the text is a dotted sequence of labels. -/
def isDottedName (cs : List Char) : Bool :=
  (Text.cut '.' cs).all isLabel

/-- Whether the text ends in an IP address in brackets. -/
def endsInAddress (cs : List Char) : Bool :=
  cs.contains '[' && cs.getLast? == some ']' && isIp (Text.afterLast '[' cs).dropLast

/-- Whether the text is a domain as it stands. -/
def isPlainDomain (cs : List Char) : Bool :=
  isDottedName cs || endsInAddress cs

/-! ### The form in ASCII -/

/-- Characters that are dropped from a domain. -/
def isIgnored (c : Char) : Bool :=
  let n := c.toNat
  n == 0xad || n == 0x34f || n == 0x200b || n == 0x2060 || n == 0x2064 || n == 0xfeff
    || (0x180b ≤ n && n ≤ 0x180d) || (0xfe00 ≤ n && n ≤ 0xfe0f)

/-- Characters that stand for the dot. -/
def isDot (c : Char) : Bool :=
  let n := c.toNat
  n == 0x2e || n == 0x3002 || n == 0xff0e || n == 0xff61

/-- Whether a domain may hold characters of the category. -/
def isUsable : Pattern.Category → Bool
  | .spaceSeparator | .lineSeparator | .paragraphSeparator | .control | .format | .surrogate
  | .privateUse | .unassigned => false
  | _ => true

/-- What a character of a domain is read as: nothing if it is ignored; failure if it
cannot stand there. Full-width forms stand for ASCII, capital letters for small ones. -/
def mapped? (c : Char) : Option (List Char) :=
  let n := c.toNat
  if n < 128 then some [c.toLower]
  else if isIgnored c then some []
  else if isDot c then some ['.']
  else if 0xff01 ≤ n ∧ n ≤ 0xff5e then some [(Char.ofNat (n - 0xfee0)).toLower]
  else if isUsable (Pattern.Category.of c) then some [Char.ofNat (Pattern.foldCode n)]
  else none

/-- Reads every character. -/
def mapAll? : List Char → Option (List Char)
  | [] => some []
  | c :: rest => (mapped? c).bind fun m => (mapAll? rest).map (m ++ ·)

/-- A label in ASCII. A label does not begin with a mark. -/
def asciiLabel? (label : List Char) : Option (List Char) :=
  if label.all (·.toNat < 128) then some label
  else if label.head?.any fun c => (Pattern.Category.of c).isMark then none
  else some ("xn--".toList ++ Punycode.encode label)

/-- The labels in ASCII. -/
def asciiLabels? : List (List Char) → Option (List (List Char))
  | [] => some []
  | label :: rest => (asciiLabel? label).bind fun l => (asciiLabels? rest).map (l :: ·)

/-- The form of a domain in ASCII. -/
def asciiDomain? (cs : List Char) : Option (List Char) :=
  (mapAll? cs).bind fun mapped => (asciiLabels? (Text.cut '.' mapped)).map (Text.join '.')

/-- Whether the text is a domain. -/
def isDomain (cs : List Char) : Bool :=
  isPlainDomain cs || (asciiDomain? cs).any isPlainDomain

end FieldGuard.Email
