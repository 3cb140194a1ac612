import FieldGuard.Number.Reading
import FieldGuard.Text.Cut

/-!
# `FieldGuard.Email.Ip`: texts of IP addresses

A version 4 address is four decimal numbers below 256 without superfluous zeros.
A version 6 address is eight groups of up to four hexadecimal digits; one run of
groups may be left out, and the last two groups may be written as a version 4
address.
-/

set_option autoImplicit false

namespace FieldGuard.Email

/-- Whether the character is a hexadecimal digit. -/
def isHexDigit (c : Char) : Bool :=
  Number.isDigit c || ('a' ≤ c && c ≤ 'f') || ('A' ≤ c && c ≤ 'F')

/-- A decimal number below 256 without a superfluous zero in front. -/
def isOctet (cs : List Char) : Bool :=
  cs.all Number.isDigit && (cs == ['0'] || (cs.head?.any (· != '0') && cs.length ≤ 3))
    && Number.ofDigits cs < 256

/-- Whether the text is a version 4 address. -/
def isIpv4 (cs : List Char) : Bool :=
  let pieces := Text.cut '.' cs
  pieces.length == 4 && pieces.all isOctet

/-- One to four hexadecimal digits. -/
def isGroup (cs : List Char) : Bool :=
  1 ≤ cs.length && cs.length ≤ 4 && cs.all isHexDigit

/-- How many groups a text between colons stands for; a version 4 address at the end
stands for two. -/
def groupCount? (mayEndInIpv4 : Bool) : List (List Char) → Option Nat
  | [] => some 0
  | [last] =>
    if isGroup last then some 1 else if mayEndInIpv4 && isIpv4 last then some 2 else none
  | piece :: rest => if isGroup piece then (groupCount? mayEndInIpv4 rest).map (· + 1) else none

/-- How many groups stand on one side of those left out. -/
def sideCount? (mayEndInIpv4 : Bool) (cs : List Char) : Option Nat :=
  if cs.isEmpty then some 0 else groupCount? mayEndInIpv4 (Text.cut ':' cs)

/-- The parts before and after the first pair of colons. -/
def cutAtGap? : List Char → Option (List Char × List Char)
  | ':' :: ':' :: rest => some ([], rest)
  | c :: rest => (cutAtGap? rest).map fun (before, after) => (c :: before, after)
  | [] => none

/-- Whether the text is a version 6 address. -/
def isIpv6 (cs : List Char) : Bool :=
  match cutAtGap? cs with
  | none => groupCount? true (Text.cut ':' cs) == some 8
  | some (before, after) =>
    match sideCount? false before, sideCount? true after with
    | some m, some n => m + n ≤ 7
    | _, _ => false

/-- Whether the text is an address of either version. -/
def isIp (cs : List Char) : Bool :=
  isIpv4 cs || isIpv6 cs

end FieldGuard.Email
