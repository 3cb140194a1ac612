import FieldGuard.Binding.Scan
import FieldGuard.Text.Blank

/-!
# `FieldGuard.Binding.Basic`: binding expressions

A binding such as `#{bean.property}`, `#{bean['key']}` or `#{bean[name]}` is a
root followed by steps. It is parsed from the right: the last step is cut off,
and what is left is the base, parsed in the same way. Any text has an inside and
steps; `isTerm` tells which texts are well-formed expressions.

* `length_splitLast_lt`: the base is strictly shorter than the whole, so that
  parsing ends for every text;
* `length_dynamic_lt`: so is the body of a bracketed expression.
-/

set_option autoImplicit false

namespace FieldGuard

open Text

/-- One step of a binding path. -/
inductive Step where
  /-- A name after a dot, or the root. -/
  | property (name : String)
  /-- A quoted name in brackets. -/
  | key (name : String)
  /-- An expression in brackets, whose value is the name. -/
  | dynamic (body : String)
  deriving DecidableEq, Repr, Inhabited

/-- The step as it is written, without quotes and brackets. -/
def Step.name : Step → String
  | .property name => name
  | .key name => name
  | .dynamic body => body

/-- A value binding, as it is written. -/
structure Binding where
  text : String
  deriving DecidableEq, Repr, Inhabited

namespace Binding

/-- The text between the delimiters, without blanks around it; a text without
delimiters is its own inside. -/
def stripDelimiters (cs : List Char) : List Char :=
  match trim cs with
  | '#' :: '\x7b' :: rest =>
    if rest.getLast? = some '\x7d' then trim rest.dropLast else trim cs
  | _ => trim cs

/-- Whether the text is one expression between delimiters: something inside that
is not blank, with quotes and brackets balanced. -/
def isTermText (cs : List Char) : Bool :=
  match trim cs with
  | '#' :: '\x7b' :: rest =>
    rest.getLast? = some '\x7d' && trim rest.dropLast ≠ [] && isBalanced (trim rest.dropLast)
  | _ => false

/-- The text between delimiters. -/
def wrap (inside : List Char) : Binding :=
  ⟨String.ofList ('#' :: '\x7b' :: (inside ++ ['\x7d']))⟩

/-! ### Steps -/

/-- Whether the text begins and ends with one and the same quote. -/
def isQuoted (cs : List Char) : Bool :=
  2 ≤ cs.length && match cs.head? with
    | some c => isQuote c && cs.getLast? == some c
    | none => false

/-- The step written in brackets. -/
def bracketStep (content : List Char) : Step :=
  let content := trim content
  if isQuoted content then .key (String.ofList content.tail.dropLast)
  else .dynamic (String.ofList content)

/-- A text without the blanks around it, unless nothing is left. -/
def nonBlank? (cs : List Char) : Option (List Char) :=
  match trim cs with
  | [] => none
  | inside => some inside

/-- Where the last step begins: the base in front of it, and the step. -/
def cutLast? (cs : List Char) : Option (List Char × Step) :=
  if cs.getLast? = some ']' then
    (cutBack opensLast {} cs.reverse []).map fun (before, after) => (before, bracketStep after.dropLast)
  else
    (cutBack isDot {} cs.reverse []).map fun (before, after) =>
      (before, .property (String.ofList (trim after)))

/-- Splits the last step off the inside of an expression. There is no base in
front of a bare name. -/
def splitLast (cs : List Char) : Option (List Char) × Step :=
  match cutLast? cs with
  | some (before, step) => (nonBlank? before, step)
  | none => (none, .property (String.ofList (trim cs)))

theorem length_nonBlank?_le {cs inside : List Char} (h : nonBlank? cs = some inside) :
    inside.length ≤ cs.length := by
  have htrim := length_trim_le cs
  rw [nonBlank?] at h
  split at h
  · simp at h
  · cases h; exact htrim

theorem length_cutLast?_lt {cs before : List Char} {step : Step}
    (h : cutLast? cs = some (before, step)) : before.length < cs.length := by
  rw [cutLast?] at h
  split at h <;>
  · obtain ⟨⟨b, a⟩, hcut, heq⟩ := Option.map_eq_some_iff.1 h
    have hlen := length_cutBack_lt hcut
    simp only [List.length_reverse, List.length_nil] at hlen
    have hb : b = before := congrArg Prod.fst heq
    subst hb
    omega

/-- The base is strictly shorter than the whole. -/
theorem length_splitLast_lt {cs base : List Char} {step : Step}
    (h : splitLast cs = (some base, step)) : base.length < cs.length := by
  rw [splitLast] at h
  split at h
  · next before step' hcut =>
    exact Nat.lt_of_le_of_lt (length_nonBlank?_le (congrArg Prod.fst h)) (length_cutLast?_lt hcut)
  · simp at h

/-- Root and steps of the inside of an expression. -/
def stepsOf (cs : List Char) : List Step :=
  match _h : splitLast cs with
  | (none, step) => [step]
  | (some base, step) => stepsOf base ++ [step]
termination_by cs.length
decreasing_by exact length_splitLast_lt _h

/-- The bases of the inside of an expression, nearest first. -/
def basesOf (cs : List Char) : List (List Char) :=
  match _h : splitLast cs with
  | (none, _) => []
  | (some base, _) => base :: basesOf base
termination_by cs.length
decreasing_by exact length_splitLast_lt _h

theorem stepsOf_eq (cs : List Char) :
    stepsOf cs = match splitLast cs with
      | (none, step) => [step]
      | (some base, step) => stepsOf base ++ [step] := by
  rw [stepsOf]
  split <;> simp_all

theorem basesOf_eq (cs : List Char) :
    basesOf cs = match splitLast cs with
      | (none, _) => []
      | (some base, _) => base :: basesOf base := by
  rw [basesOf]
  split <;> simp_all

theorem length_bracketStep_le {content : List Char} {body : String}
    (h : bracketStep content = .dynamic body) : body.toList.length ≤ content.length := by
  rw [bracketStep] at h
  split at h
  · simp at h
  · have hbody : String.ofList (trim content) = body := by simpa using h
    rw [← hbody, String.toList_ofList]
    exact length_trim_le content

/-- The body of a bracketed expression is strictly shorter than the whole. -/
theorem length_splitLast_dynamic_lt {cs : List Char} {base : Option (List Char)} {body : String}
    (h : splitLast cs = (base, .dynamic body)) : body.toList.length < cs.length := by
  rw [splitLast, cutLast?] at h
  split at h
  · next before step hcut =>
    have hbody : step = .dynamic body := (Prod.mk.inj h).2
    split at hcut
    · obtain ⟨⟨b, a⟩, hcut, heq⟩ := Option.map_eq_some_iff.1 hcut
      have hlen := length_cutBack_lt hcut
      have hle := length_bracketStep_le ((Prod.mk.inj heq).2.trans hbody)
      simp only [List.length_reverse, List.length_nil, List.length_dropLast] at hlen hle
      omega
    · obtain ⟨⟨b, a⟩, _, heq⟩ := Option.map_eq_some_iff.1 hcut
      simpa using (Prod.mk.inj heq).2.trans hbody
  · simp at h

/-- The bodies among the steps of an expression are strictly shorter than the expression. -/
theorem length_dynamic_lt {cs : List Char} {body : String}
    (h : Step.dynamic body ∈ stepsOf cs) : body.toList.length < cs.length := by
  fun_induction stepsOf cs with
  | case1 cs step hsplit =>
    have hstep : step = .dynamic body := (List.mem_singleton.1 h).symm
    exact length_splitLast_dynamic_lt (hstep ▸ hsplit)
  | case2 cs base step hsplit ih =>
    rcases List.mem_append.1 h with h | h
    · exact Nat.lt_trans (ih h) (length_splitLast_lt hsplit)
    · have hstep : step = .dynamic body := (List.mem_singleton.1 h).symm
      exact length_splitLast_dynamic_lt (hstep ▸ hsplit)

/-! ### Bindings -/

/-- Whether the binding is a well-formed expression. -/
def isTerm (b : Binding) : Bool :=
  isTermText b.text.toList

/-- The text between the delimiters. -/
def inside (b : Binding) : List Char :=
  stripDelimiters b.text.toList

/-- Root and steps. -/
def steps (b : Binding) : List Step :=
  stepsOf b.inside

/-- The last step. -/
def lastStep (b : Binding) : Step :=
  (splitLast b.inside).2

/-- Name of the last step, as it is written. -/
def property (b : Binding) : String :=
  b.lastStep.name

/-- The expression of the object that the last step is read from; none for a bare name. -/
def base? (b : Binding) : Option Binding :=
  (splitLast b.inside).1.map wrap

/-- The base, its base, and so on. -/
def bases (b : Binding) : List Binding :=
  (basesOf b.inside).map wrap

end Binding

/-- Whether the text is a well-formed expression. -/
def isTerm (text : String) : Bool :=
  Binding.isTerm ⟨text⟩

end FieldGuard
