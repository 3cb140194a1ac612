import FieldGuard.Number.Binary64
import FieldGuard.Text.Blank

/-!
# `FieldGuard.Number.Reading`: reading numbers

A whole number is an optional sign and at least one ASCII digit. A decimal is an
optional sign and one of the words `inf`, `infinity`, `nan` in any case, or
digits with an optional point and an optional exponent, with at least one digit
before or after the point. Nothing else is a number; blanks are not skipped.
-/

set_option autoImplicit false

namespace FieldGuard.Number

/-- Value of an ASCII digit. -/
def digit? (c : Char) : Option Nat :=
  if '0' ≤ c ∧ c ≤ '9' then some (c.toNat - '0'.toNat) else none

/-- Whether the character is an ASCII digit. -/
def isDigit (c : Char) : Bool := (digit? c).isSome

/-- The number that ASCII digits denote; anything else counts as zero. -/
def ofDigits (cs : List Char) : Nat :=
  cs.foldl (fun n c => n * 10 + (digit? c).getD 0) 0

/-- Whether there is an optional minus, and the text after an optional sign. -/
def splitSign : List Char → Bool × List Char
  | '-' :: rest => (true, rest)
  | '+' :: rest => (false, rest)
  | cs => (false, cs)

/-- Reads a whole number of any size. -/
def readInt? (cs : List Char) : Option Int :=
  let (negative, digits) := splitSign cs
  if digits ≠ [] ∧ digits.all isDigit then
    let n : Int := ofDigits digits
    some (if negative then -n else n)
  else none

/-- Reads a whole number of the 64-bit signed range. -/
def readInt64? (s : String) : Option Int64 :=
  (readInt? s.toList).bind int64?

/-- The number `digits * 10 ^ exponent`, rounded to the nearest. Exponents far
outside the range of the format are decided without computing the power. -/
def scaled (digits : Nat) (exponent : Int) : Float :=
  let size : Int := (Nat.toDigits 10 digits).length + exponent
  if digits = 0 ∨ size < -330 then Float.ofBits 0
  else if 310 < size then Float.ofBits 0x7ff0000000000000
  else Float.ofScientific digits (exponent < 0) exponent.natAbs

/-- The exponent part: nothing, or `e` and a whole number. -/
def readExponent? : List Char → Option Int
  | [] => some 0
  | c :: rest => if c = 'e' ∨ c = 'E' then readInt? rest else none

/-- A decimal without a sign, in digits. -/
def readDigits? (cs : List Char) : Option Float :=
  let whole := cs.takeWhile isDigit
  let afterWhole := cs.dropWhile isDigit
  let (fraction, rest) :=
    match afterWhole with
    | '.' :: tail => (tail.takeWhile isDigit, tail.dropWhile isDigit)
    | _ => ([], afterWhole)
  if whole = [] ∧ fraction = [] then none
  else (readExponent? rest).map fun e => scaled (ofDigits (whole ++ fraction)) (e - fraction.length)

/-- A decimal without a sign. -/
def readUnsigned? (cs : List Char) : Option Float :=
  match String.ofList (cs.map Char.toLower) with
  | "inf" | "infinity" => some (Float.ofBits 0x7ff0000000000000)
  | "nan" => some (Float.ofBits 0x7ff8000000000000)
  | _ => readDigits? cs

/-- Reads a decimal. -/
def readFloat? (s : String) : Option Float :=
  let (negative, rest) := splitSign s.toList
  (readUnsigned? rest).map fun x => if negative then -x else x

/-- Reads a whole number between blanks. -/
def readTrimmedInt64? (s : String) : Option Int64 := readInt64? (Text.trimmed s)

/-- Reads a decimal between blanks. -/
def readTrimmedFloat? (s : String) : Option Float := readFloat? (Text.trimmed s)

end FieldGuard.Number
