import FieldGuard.Email.Domain

/-!
# `FieldGuard.Email.Address`: mail addresses

The last `@` of an address separates the local part from the domain. The local
part has at most 64 characters, letters, digits and some punctuation; the domain
has at most 255.
-/

set_option autoImplicit false

namespace FieldGuard.Email

/-- The punctuation of local parts. -/
def localPunctuation : String :=
  ".!#$%&'*+/=?^_`\x7b|\x7d~-"

/-- Whether the character may stand in a local part. -/
def isLocalChar (c : Char) : Bool :=
  isLetterOrDigit c || localPunctuation.contains c

/-- Whether the text is a local part. -/
def isLocalPart (cs : List Char) : Bool :=
  !cs.isEmpty && cs.length ≤ 64 && cs.all isLocalChar

/-- Whether the text is a mail address. -/
def isAddress (s : String) : Bool :=
  let cs := s.toList
  let domain := Text.afterLast '@' cs
  cs.contains '@' && domain.length ≤ 255 && isLocalPart (cs.take (cs.length - domain.length - 1))
    && isDomain domain

end FieldGuard.Email
