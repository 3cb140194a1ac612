/-!
# `FieldGuard.Text.Replace`: replacing a text inside a text

Occurrences are found from left to right and do not overlap. What stands in for
an occurrence is never searched again.

* `replace_of_not_infix`: without an occurrence nothing changes.
-/

set_option autoImplicit false

namespace FieldGuard.Text

/-- Replaces the occurrences of `needle` after the first `skip` characters,
which belong to an occurrence that has been replaced already. -/
def replaceFrom (needle substitute : List Char) : Nat → List Char → List Char
  | _, [] => []
  | skip + 1, _ :: rest => replaceFrom needle substitute skip rest
  | 0, c :: rest =>
    if needle.isPrefixOf (c :: rest) then
      substitute ++ replaceFrom needle substitute (needle.length - 1) rest
    else c :: replaceFrom needle substitute 0 rest

/-- Replaces every occurrence of a `needle` that is not empty. -/
def replace (needle substitute text : String) : String :=
  String.ofList (replaceFrom needle.toList substitute.toList 0 text.toList)

/-- Whether the text has an occurrence of `needle`. -/
def occursIn (needle : List Char) : List Char → Bool
  | [] => needle.isEmpty
  | c :: rest => needle.isPrefixOf (c :: rest) || occursIn needle rest

theorem replaceFrom_of_not_infix {needle substitute : List Char} {cs : List Char}
    (h : ¬ needle <:+: cs) : replaceFrom needle substitute 0 cs = cs := by
  induction cs with
  | nil => rfl
  | cons c rest ih =>
    have hhead : needle.isPrefixOf (c :: rest) = false := by
      cases hp : needle.isPrefixOf (c :: rest) with
      | false => rfl
      | true => exact absurd (List.isPrefixOf_iff_prefix.1 hp).isInfix h
    have htail : ¬ needle <:+: rest := fun hr => h (hr.trans (List.suffix_cons c rest).isInfix)
    rw [replaceFrom, hhead]
    simp [ih htail]

/-- Without an occurrence nothing changes. -/
theorem replace_of_not_infix {needle substitute text : String}
    (h : ¬ needle.toList <:+: text.toList) : replace needle substitute text = text := by
  rw [replace, replaceFrom_of_not_infix h, String.ofList_toList]

end FieldGuard.Text
