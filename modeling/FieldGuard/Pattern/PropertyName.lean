import FieldGuard.Pattern.CharClass

/-!
# `FieldGuard.Pattern.PropertyName`: naming properties of characters

A pattern names a general category by its long or short name, a group of
categories, a script, or one of a few other properties. Case, blanks, underscores
and hyphens in a name do not matter, nor does `is` at its start. A name may be
qualified as a category or as a script.
-/

set_option autoImplicit false

namespace FieldGuard.Pattern

namespace Category

/-- Long name of a category without blanks, in lower case. -/
def longName : Category → String
  | uppercaseLetter => "uppercaseletter"
  | lowercaseLetter => "lowercaseletter"
  | titlecaseLetter => "titlecaseletter"
  | modifierLetter => "modifierletter"
  | otherLetter => "otherletter"
  | nonspacingMark => "nonspacingmark"
  | spacingMark => "spacingmark"
  | enclosingMark => "enclosingmark"
  | decimalNumber => "decimalnumber"
  | letterNumber => "letternumber"
  | otherNumber => "othernumber"
  | connectorPunctuation => "connectorpunctuation"
  | dashPunctuation => "dashpunctuation"
  | openPunctuation => "openpunctuation"
  | closePunctuation => "closepunctuation"
  | initialPunctuation => "initialpunctuation"
  | finalPunctuation => "finalpunctuation"
  | otherPunctuation => "otherpunctuation"
  | mathSymbol => "mathsymbol"
  | currencySymbol => "currencysymbol"
  | modifierSymbol => "modifiersymbol"
  | otherSymbol => "othersymbol"
  | spaceSeparator => "spaceseparator"
  | lineSeparator => "lineseparator"
  | paragraphSeparator => "paragraphseparator"
  | control => "control"
  | format => "format"
  | surrogate => "surrogate"
  | privateUse => "privateuse"
  | unassigned => "unassigned"

/-- Categories whose short name begins with the letter. -/
def group (letter : Char) : List Category :=
  all.filter fun category => category.abbreviation.toList.head? == some letter

/-- The categories that a name in lower case stands for. -/
def ofName? (name : String) : Option (List Category) :=
  match name with
  | "l" | "letter" => some (group 'l')
  | "m" | "mark" | "combiningmark" => some (group 'm')
  | "n" | "number" => some (group 'n')
  | "p" | "punctuation" | "punct" => some (group 'p')
  | "s" | "symbol" => some (group 's')
  | "z" | "separator" => some (group 'z')
  | "c" | "other" => some (group 'c')
  | "lc" | "casedletter" => some [uppercaseLetter, lowercaseLetter, titlecaseLetter]
  | "digit" => some [decimalNumber]
  | "cntrl" => some [control]
  | _ =>
    (all.find? fun category => category.abbreviation == name || category.longName == name).map
      fun category => [category]

end Category

namespace Property

/-- Whether the character counts in the name of a property. -/
def isNameChar (c : Char) : Bool :=
  c.toNat < 128 && c != ' ' && c != '_' && c != '-'

/-- A name in lower case, without separators and without `is` at its start. -/
def plainName (cs : List Char) : String :=
  match (cs.filter isNameChar).map Char.toLower with
  | ['i', 's', 'c'] => "isc"
  | 'i' :: 's' :: c :: rest => String.ofList (c :: rest)
  | plain => String.ofList plain

/-- The property of a plain name. -/
def ofPlainName? (name : String) : Option Property :=
  match name with
  | "any" => some any
  | "ascii" => some ascii
  | "assigned" => some assigned
  | "alphabetic" | "alpha" => some alphabetic
  | "lowercase" | "lower" => some lowercase
  | "uppercase" | "upper" => some uppercase
  | "whitespace" | "wspace" | "space" => some whiteSpace
  | _ =>
    match Category.ofName? name with
    | some wanted => some (categories wanted)
    | none => (Script.ofName? name).map script

/-- The property with a value, both as plain names. -/
def ofQualifiedName? (kind value : String) : Option Property :=
  match kind with
  | "gc" | "generalcategory" => (Category.ofName? value).map categories
  | "sc" | "script" => (Script.ofName? value).map script
  | _ => none

/-- Splits at the first occurrence of a separator of one or two characters. -/
def splitAt? (separator : List Char) : List Char → Option (List Char × List Char)
  | [] => none
  | c :: rest =>
    if separator.isPrefixOf (c :: rest) then some ([], (c :: rest).drop separator.length)
    else (splitAt? separator rest).map fun (before, after) => (c :: before, after)

/-- The class that the text between the braces names. -/
def classOf? (name : List Char) : Option CharClass :=
  let qualified := fun (parts : List Char × List Char) =>
    (ofQualifiedName? (plainName parts.1) (plainName parts.2)).map CharClass.property
  match splitAt? ['!', '='] name with
  | some parts => (qualified parts).map CharClass.complement
  | none =>
    match (splitAt? [':'] name).or (splitAt? ['='] name) with
    | some parts => qualified parts
    | none => (ofPlainName? (plainName name)).map CharClass.property

end Property

end FieldGuard.Pattern
