import FieldGuard.Pattern.Category

/-!
# `FieldGuard.Text.Quoted`: texts as they are shown in complaints

A shown text stands in double quotes. Quotes, backslashes and the common controls
have short escapes. Every other character that has no shape of its own is shown by
its number, so that nothing in a complaint is invisible.
-/

set_option autoImplicit false

namespace FieldGuard.Text

/-- Whether a character has no shape of its own. -/
def isShapeless (c : Char) : Bool :=
  match Pattern.Category.of c with
  | .control | .format | .surrogate | .privateUse | .unassigned | .lineSeparator
  | .paragraphSeparator | .nonspacingMark | .enclosingMark => true
  | .spaceSeparator => c != ' '
  | _ => false

/-- A character inside a shown text. -/
def shown (c : Char) : List Char :=
  if c.isAlphanum then [c]
  else
    match c with
    | '"' => ['\\', '"']
    | '\\' => ['\\', '\\']
    | '\n' => ['\\', 'n']
    | '\r' => ['\\', 'r']
    | '\t' => ['\\', 't']
    | '\x00' => ['\\', '0']
    | _ =>
      if isShapeless c then
        ['\\', 'u', '\x7b'] ++ Nat.toDigits 16 c.toNat ++ ['\x7d']
      else [c]

/-- A text in quotes. -/
def quoted (s : String) : String :=
  String.ofList ('"' :: (s.toList.flatMap shown ++ ['"']))

end FieldGuard.Text
