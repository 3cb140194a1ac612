import FieldGuard.Json.Basic
import FieldGuard.Number.QuickReading

/-!
# `FieldGuard.Json.Token`: the tokens of a JSON text

A scanner that looks at one character at a time. Between tokens it skips
blanks; punctuation is a token by itself; a quote opens a text, in which escapes
are resolved and pairs of surrogates joined; any other character opens a word,
which ends at a blank or at punctuation and has to be a literal or a number.
-/

set_option autoImplicit false

namespace FieldGuard.Json

/-- The tokens of a JSON text. -/
inductive Token where
  | openBrace
  | closeBrace
  | openBracket
  | closeBracket
  | comma
  | colon
  | literal (value : Json)

namespace Token

/-- What the scanner is in the middle of; texts are kept with the last character first. -/
inductive Mode where
  | between
  | word (seen : List Char)
  | text (seen : List Char) (high : Option Nat)
  | escape (seen : List Char) (high : Option Nat)
  | unicode (seen : List Char) (high : Option Nat) (value digits : Nat)

/-- The tokens found so far, the last one first, and what the scanner is in the middle of. -/
structure Scanner where
  tokens : List Token
  mode : Mode

/-- The blanks of JSON. -/
def isSpace (c : Char) : Bool :=
  c == ' ' || c == '\t' || c == '\n' || c == '\r'

/-- The token of a punctuation character. -/
def punctuation? : Char → Option Token
  | '{' => some .openBrace
  | '}' => some .closeBrace
  | '[' => some .openBracket
  | ']' => some .closeBracket
  | ',' => some .comma
  | ':' => some .colon
  | _ => none

/-- Value of a hexadecimal digit. -/
def hex? (c : Char) : Option Nat :=
  if '0' ≤ c ∧ c ≤ '9' then some (c.toNat - '0'.toNat)
  else if 'a' ≤ c ∧ c ≤ 'f' then some (c.toNat - 'a'.toNat + 10)
  else if 'A' ≤ c ∧ c ≤ 'F' then some (c.toNat - 'A'.toNat + 10)
  else none

/-- Digits without a superfluous zero in front. -/
def isPlainWhole : List Char → Bool
  | [] => false
  | ['0'] => true
  | '0' :: _ => false
  | cs => cs.all Number.isDigit

/-- The digits of a fraction, which is a point and at least one digit, or nothing. -/
def fraction? : List Char → Option (List Char)
  | [] => some []
  | '.' :: cs => if !cs.isEmpty && cs.all Number.isDigit then some cs else none
  | _ => none

/-- A number without its sign: whole if it has neither fraction nor exponent and is in
the 64-bit ranges, otherwise a floating point number. A whole zero with a minus is
the negative zero. -/
def unsigned? (negative : Bool) (cs : List Char) : Option Json := do
  let mantissa := cs.takeWhile fun c => c ≠ 'e' ∧ c ≠ 'E'
  let whole := mantissa.takeWhile (· ≠ '.')
  if !isPlainWhole whole then none
  let fraction ← fraction? (mantissa.dropWhile (· ≠ '.'))
  let exponent ← Number.readExponent? (cs.drop mantissa.length)
  let n : Int := Number.ofDigits whole
  if cs.length = whole.length ∧ !negative ∧ n < Nat.pow 2 64 then some (.int n)
  else if cs.length = whole.length ∧ negative ∧ 0 < n ∧ n ≤ Nat.pow 2 63 then some (.int (-n))
  else
    (Number.quickDecimal? whole fraction exponent).map fun x => .float (if negative then -x else x)

/-- A number. -/
def number? : List Char → Option Json
  | '-' :: cs => unsigned? true cs
  | cs => unsigned? false cs

/-- The value of a word. -/
def word? (cs : List Char) : Option Json :=
  match String.ofList cs with
  | "null" => some .null
  | "true" => some (.bool true)
  | "false" => some (.bool false)
  | _ => number? cs

/-- Ends the word that the scanner is in. -/
def closeWord (s : Scanner) : Option Scanner :=
  match s.mode with
  | .word seen => (word? seen.reverse).map fun value => ⟨.literal value :: s.tokens, .between⟩
  | _ => some s

/-- A character between tokens. -/
def startToken (tokens : List Token) (c : Char) : Scanner :=
  if isSpace c then ⟨tokens, .between⟩
  else
    match punctuation? c with
    | some token => ⟨token :: tokens, .between⟩
    | none => if c = '"' then ⟨tokens, .text [] none⟩ else ⟨tokens, .word [c]⟩

/-- The character of a one-letter escape. -/
def escaped? : Char → Option Char
  | '"' => some '"'
  | '\\' => some '\\'
  | '/' => some '/'
  | 'b' => some '\x08'
  | 'f' => some '\x0c'
  | 'n' => some '\n'
  | 'r' => some '\r'
  | 't' => some '\t'
  | _ => none

/-- Appends the character of a four-digit escape; a high surrogate waits for its low one. -/
def appendUnit (seen : List Char) (high : Option Nat) (unit : Nat) : Option Mode :=
  match high with
  | none =>
    if 0xd800 ≤ unit ∧ unit < 0xdc00 then some (.text seen (some unit))
    else if 0xdc00 ≤ unit ∧ unit < 0xe000 then none
    else some (.text (Char.ofNat unit :: seen) none)
  | some h =>
    if 0xdc00 ≤ unit ∧ unit < 0xe000 then
      some (.text (Char.ofNat (0x10000 + (h - 0xd800) * 0x400 + (unit - 0xdc00)) :: seen) none)
    else none

/-- One character. -/
def step (s : Scanner) (c : Char) : Option Scanner :=
  match s.mode with
  | .between => some (startToken s.tokens c)
  | .word seen =>
    if isSpace c || (punctuation? c).isSome then
      (closeWord s).map fun closed => startToken closed.tokens c
    else some { s with mode := .word (c :: seen) }
  | .text seen high =>
    if c = '\\' then some { s with mode := .escape seen high }
    else if high.isSome then none
    else if c = '"' then
      some ⟨.literal (.string (String.ofList seen.reverse)) :: s.tokens, .between⟩
    else if c.toNat < 0x20 then none
    else some { s with mode := .text (c :: seen) none }
  | .escape seen high =>
    if c = 'u' then some { s with mode := .unicode seen high 0 0 }
    else if high.isSome then none
    else (escaped? c).map fun e => { s with mode := .text (e :: seen) none }
  | .unicode seen high value digits =>
    (hex? c).bind fun d =>
      let value := value * 16 + d
      if digits = 3 then (appendUnit seen high value).map fun mode => { s with mode := mode }
      else some { s with mode := .unicode seen high value (digits + 1) }

/-- Runs the scanner over a text. -/
def scan : Scanner → List Char → Option Scanner
  | s, [] => some s
  | s, c :: rest => (step s c).bind fun s => scan s rest

/-- The tokens of a text; nothing if it has anything else or ends within a token. -/
def ofText? (cs : List Char) : Option (List Token) :=
  ((scan ⟨[], .between⟩ cs).bind closeWord).bind fun s =>
    match s.mode with
    | .between => some s.tokens.reverse
    | _ => none

end Token

end FieldGuard.Json
