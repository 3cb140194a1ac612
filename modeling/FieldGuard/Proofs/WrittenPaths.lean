import FieldGuard.Binding.Basic
import FieldGuard.Proofs.Balance
import Mathlib.Data.List.Basic

/-!
# `FieldGuard.Proofs.WrittenPaths`: reading a binding path gives back what was written

A path is written from left to right, a step after the other. It is read from right to left,
where each cut has to find the place at which the last step was written. The text of a path
is trimmed and balanced (`IsInside`), and writing one more step keeps it so; that carries
the induction over the steps.

* `splitLast_written`: what is cut off is the step that was written last;
* `stepsOf_append`: so the steps that are written after an inside are read back after its own;
* `steps_ofPath`: a written path is a well-formed expression with exactly its root and steps.
-/

set_option autoImplicit false

namespace FieldGuard

open Text

/-! ### Blanks -/

namespace Text

theorem isBlank_head?_dropWhile (cs : List Char) :
    ∀ c ∈ (cs.dropWhile isBlank).head?, isBlank c = false := by
  intro c hc
  have hnot := List.head?_dropWhile_not isBlank cs
  rw [Option.mem_def.1 hc] at hnot
  simpa using hnot

/-- Dropping blanks at the end does not change how a text begins. -/
theorem trimRight_prefix (cs : List Char) : trimRight cs <+: cs := by
  rw [trimRight, ← List.reverse_suffix, List.reverse_reverse]
  exact List.dropWhile_suffix isBlank

/-- What trimming leaves neither begins nor ends with a blank. -/
theorem isBlank_trim (cs : List Char) :
    (∀ c ∈ (trim cs).head?, isBlank c = false) ∧ ∀ c ∈ (trim cs).getLast?, isBlank c = false := by
  refine ⟨fun c hc => isBlank_head?_dropWhile cs c ?_, ?_⟩
  · obtain ⟨rest, hrest⟩ := trimRight_prefix (cs.dropWhile isBlank)
    have hfirst : (trimRight (cs.dropWhile isBlank)).head? = some c := hc
    rw [← hrest, List.head?_append, hfirst]
    rfl
  · simpa [trim, trimRight] using isBlank_head?_dropWhile (cs.dropWhile isBlank).reverse

/-- Trimming leaves no blanks to trim. -/
@[simp] theorem trim_trim (cs : List Char) : trim (trim cs) = trim cs :=
  trim_eq_self (isBlank_trim cs).1 (isBlank_trim cs).2

/-- A text that trimming leaves alone neither begins nor ends with a blank. -/
theorem isBlank_of_trim {cs : List Char} (h : trim cs = cs) :
    (∀ c ∈ cs.head?, isBlank c = false) ∧ ∀ c ∈ cs.getLast?, isBlank c = false := by
  have hends := isBlank_trim cs
  rwa [h] at hends

/-- A text is left alone if its first part begins without a blank and its last part ends
without one. -/
theorem trim_append {xs ys : List Char} (hxs : xs ≠ []) (hys : ys ≠ [])
    (hfirst : ∀ c ∈ xs.head?, isBlank c = false) (hlast : ∀ c ∈ ys.getLast?, isBlank c = false) :
    trim (xs ++ ys) = xs ++ ys := by
  refine trim_eq_self ?_ ?_
  · rwa [List.head?_append_of_ne_nil _ hxs]
  · rwa [List.getLast?_append_of_ne_nil _ hys]

theorem trim_enclosed {first last : Char} (hfirst : isBlank first = false)
    (hlast : isBlank last = false) (cs : List Char) :
    trim (first :: cs ++ [last]) = first :: cs ++ [last] :=
  trim_append (by simp) (by simp) (by simpa using hfirst) (by simpa using hlast)

end Text

/-! ### Written paths -/

/-- A name that can be written after a dot: not empty, no blanks around it, and no dot,
quote, brace or bracket in it. -/
structure IsName (name : String) : Prop where
  ne_nil : name.toList ≠ []
  trimmed : trim name.toList = name.toList
  plain : ∀ c ∈ name.toList, Binding.isPlain c = true ∧ c ≠ '.'

theorem isName_iff {name : String} :
    IsName name ↔ name.toList ≠ [] ∧ trim name.toList = name.toList ∧
      (name.toList.all fun c => Binding.isPlain c && c != '.') = true := by
  simp only [List.all_eq_true, Bool.and_eq_true, bne_iff_ne]
  exact ⟨fun h => ⟨h.ne_nil, h.trimmed, h.plain⟩, fun h => ⟨h.1, h.2.1, h.2.2⟩⟩

instance (name : String) : Decidable (IsName name) :=
  decidable_of_iff _ isName_iff.symm

/-- A body that can be written in brackets: without blanks around it, the inside of a
well-formed expression, and not taken for a quoted key. -/
structure IsBody (body : String) : Prop where
  trimmed : trim body.toList = body.toList
  inside : ∃ term : Binding, term.isTerm = true ∧ term.inside = body.toList
  unquoted : Binding.isQuoted body.toList = false

namespace Step

/-- How a step is written after a path. -/
def written : Step → List Char
  | .property name => '.' :: name.toList
  | .key name => '[' :: ('\'' :: name.toList ++ ['\'']) ++ [']']
  | .dynamic body => '[' :: body.toList ++ [']']

/-- The steps that can be written: a key may hold anything but the quote it stands in. -/
def IsWritable : Step → Prop
  | .property name => IsName name
  | .key name => '\'' ∉ name.toList
  | .dynamic body => IsBody body

end Step

namespace Binding

/-- The expression of a root name and the steps after it. -/
def ofPath (root : String) (steps : List Step) : Binding :=
  wrap (root.toList ++ steps.flatMap Step.written)

/-! ### Insides -/

/-- A well-formed inside, without blanks around it. -/
structure IsInside (cs : List Char) : Prop where
  ne_nil : cs ≠ []
  trimmed : trim cs = cs
  balanced : Balanced cs

theorem trim_delimited (cs : List Char) :
    trim ('#' :: '\x7b' :: (cs ++ ['\x7d'])) = '#' :: '\x7b' :: (cs ++ ['\x7d']) :=
  trim_enclosed (by decide) (by decide) ('\x7b' :: cs)

theorem inside_wrap (cs : List Char) : (wrap cs).inside = trim cs := by
  rw [inside, wrap, String.toList_ofList, stripDelimiters, trim_delimited]
  simp

theorem isTerm_wrap {cs : List Char} (h : IsInside cs) : (wrap cs).isTerm = true := by
  rw [isTerm, wrap, String.toList_ofList, isTermText, trim_delimited]
  simp [h.trimmed, h.ne_nil, isBalanced_iff.2 h.balanced]

/-- What is inside a well-formed expression is an inside. -/
theorem isInside_inside {b : Binding} (h : b.isTerm = true) : IsInside b.inside := by
  unfold isTerm isTermText at h
  unfold inside stripDelimiters
  split at h
  · next rest htrim =>
    simp only [Bool.and_eq_true, decide_eq_true_eq] at h
    obtain ⟨⟨hlast, hne⟩, hbalanced⟩ := h
    rw [htrim]
    simp only [hlast, if_true]
    exact ⟨hne, trim_trim _, isBalanced_iff.1 hbalanced⟩
  · simp at h

/-! ### One more step -/

/-- The last step of a text that ends in a bracket is what stands in the brackets. -/
theorem cutLast?_bracket {content : List Char} (h : Balanced content) (before : List Char) :
    cutLast? (before ++ '[' :: content ++ [']']) = some (before, bracketStep content) := by
  have hlast : (before ++ '[' :: content ++ [']']).getLast? = some ']' := List.getLast?_concat
  rw [cutLast?, if_pos hlast, cutBack_bracket h]
  simp

/-- A name does not end in a bracket, so what is looked for is a dot. -/
theorem getLast?_of_isName {name : String} (h : IsName name) (before : List Char) :
    (before ++ name.toList).getLast? ≠ some ']' := by
  rw [List.getLast?_append_of_ne_nil _ h.ne_nil]
  intro hlast
  exact (ne_of_isPlain (h.plain _ (List.mem_of_getLast? hlast)).1).2.2.2 rfl

theorem cutLast?_name {name : String} (h : IsName name) (before : List Char) :
    cutLast? (before ++ '.' :: name.toList) = some (before, .property name) := by
  have hlast : (before ++ '.' :: name.toList).getLast? ≠ some ']' := by
    simpa using getLast?_of_isName h (before ++ ['.'])
  rw [cutLast?, if_neg hlast, cutBack_name h.plain]
  simp [h.trimmed]

/-- There is nothing to cut off from a bare name. -/
theorem splitLast_bare {name : String} (h : IsName name) :
    splitLast name.toList = (none, .property name) := by
  have hlast : name.toList.getLast? ≠ some ']' := getLast?_of_isName h []
  rw [splitLast, cutLast?, if_neg hlast, cutBack_bare h.plain]
  simp [h.trimmed]

theorem bracketStep_key (name : List Char) :
    bracketStep ('\'' :: name ++ ['\'']) = .key (String.ofList name) := by
  have hquoted : isQuoted ('\'' :: name ++ ['\'']) = true := by
    have hlast : ('\'' :: name ++ ['\'']).getLast? = some '\'' := List.getLast?_concat
    rw [isQuoted, hlast]
    simp [isQuote]
  rw [bracketStep, trim_enclosed (by decide) (by decide), hquoted]
  simp

theorem bracketStep_dynamic {body : String} (h : IsBody body) :
    bracketStep body.toList = .dynamic body := by
  simp [bracketStep, h.trimmed, h.unquoted]

/-- What is cut off from a path is the step that was written last. -/
theorem cutLast?_written {s : Step} (hs : s.IsWritable) (before : List Char) :
    cutLast? (before ++ s.written) = some (before, s) := by
  cases s with
  | property name => exact cutLast?_name hs before
  | key name =>
    have hcontent : Balanced ('\'' :: name.toList ++ ['\'']) := .quote rfl hs
    have hcut := cutLast?_bracket hcontent before
    rw [bracketStep_key, String.ofList_toList, List.append_assoc] at hcut
    exact hcut
  | dynamic body =>
    obtain ⟨term, hterm, hinside⟩ := hs.inside
    have hcontent : Balanced body.toList := hinside ▸ (isInside_inside hterm).balanced
    have hcut := cutLast?_bracket hcontent before
    rw [bracketStep_dynamic hs, List.append_assoc] at hcut
    exact hcut

theorem balanced_written {s : Step} (hs : s.IsWritable) : Balanced s.written := by
  cases s with
  | property name =>
    exact .plain (by decide) (.of_plain fun c hc => (hs.plain c hc).1)
  | key name => exact .bracket (.quote rfl hs)
  | dynamic body =>
    obtain ⟨term, hterm, hinside⟩ := hs.inside
    exact .bracket (hinside ▸ (isInside_inside hterm).balanced)

/-- A written step ends with its closing bracket or with the last character of its name. -/
theorem isBlank_written {s : Step} (hs : s.IsWritable) :
    ∀ c ∈ s.written.getLast?, isBlank c = false := by
  have hbracket : ∀ content : List Char, ∀ c ∈ ('[' :: content ++ [']']).getLast?,
      isBlank c = false := by
    intro content c hc
    rw [List.getLast?_concat] at hc
    cases hc
    decide
  cases s with
  | property name =>
    intro c hc
    have hlast : ('.' :: name.toList).getLast? = name.toList.getLast? :=
      List.getLast?_append_of_ne_nil ['.'] hs.ne_nil
    rw [Step.written, hlast] at hc
    exact (isBlank_of_trim hs.trimmed).2 c hc
  | key name => exact hbracket _
  | dynamic body => exact hbracket _

/-- Writing one more step after an inside gives an inside again. -/
theorem IsInside.append_written {cs : List Char} (h : IsInside cs) {s : Step}
    (hs : s.IsWritable) : IsInside (cs ++ s.written) where
  ne_nil := by simp [h.ne_nil]
  trimmed := by
    have hwritten : s.written ≠ [] := by cases s <;> simp [Step.written]
    exact trim_append h.ne_nil hwritten (isBlank_of_trim h.trimmed).1 (isBlank_written hs)
  balanced := h.balanced.append (balanced_written hs)

/-- What is cut off is the step that was written last, and what was there before is left. -/
theorem splitLast_written {cs : List Char} (h : IsInside cs) {s : Step} (hs : s.IsWritable) :
    splitLast (cs ++ s.written) = (some cs, s) := by
  have hbase : nonBlank? cs = some cs := by
    rw [nonBlank?, h.trimmed]
    cases cs with
    | nil => exact absurd rfl h.ne_nil
    | cons c rest => rfl
  rw [splitLast, cutLast?_written hs]
  simp [hbase]

/-! ### Paths -/

theorem isInside_of_isName {name : String} (h : IsName name) : IsInside name.toList :=
  ⟨h.ne_nil, h.trimmed, .of_plain fun c hc => (h.plain c hc).1⟩

/-- The steps that are written after an inside are read back after its own steps. -/
theorem stepsOf_append {cs : List Char} (h : IsInside cs) {steps : List Step}
    (hsteps : ∀ s ∈ steps, s.IsWritable) :
    IsInside (cs ++ steps.flatMap Step.written) ∧
      stepsOf (cs ++ steps.flatMap Step.written) = stepsOf cs ++ steps := by
  -- Over every inside to write after, since each step leads to a longer one.
  induction steps generalizing cs with
  | nil => simpa using h
  | cons s rest ih =>
    have hs := hsteps s List.mem_cons_self
    have hone : stepsOf (cs ++ s.written) = stepsOf cs ++ [s] := by
      rw [stepsOf_eq, splitLast_written h hs]
    obtain ⟨hinside, hrest⟩ := ih (h.append_written hs) fun t ht =>
      hsteps t (List.mem_cons_of_mem _ ht)
    rw [hone, List.append_assoc, List.append_assoc] at hrest
    rw [List.append_assoc] at hinside
    exact ⟨hinside, hrest⟩

/-- A path that is written as an expression is well-formed, and reading it gives back its
root and its steps, in order and each of its kind. -/
theorem steps_ofPath {root : String} (hroot : IsName root) {steps : List Step}
    (hsteps : ∀ s ∈ steps, s.IsWritable) :
    (ofPath root steps).isTerm = true ∧
      (ofPath root steps).steps = .property root :: steps := by
  obtain ⟨hinside, hread⟩ := stepsOf_append (isInside_of_isName hroot) hsteps
  refine ⟨isTerm_wrap hinside, ?_⟩
  have hbare : stepsOf root.toList = [.property root] := by
    rw [stepsOf_eq, splitLast_bare hroot]
  rw [Binding.steps, ofPath, inside_wrap, hinside.trimmed, hread, hbare]
  rfl

/-- A path with a bracket in brackets, and with a key that looks like a piece of syntax. -/
theorem steps_ofPath_nested :
    let steps := [Step.dynamic "bean2[bean3['key1']]", .key "a.b]\x7b", .property "property1"]
    (ofPath "bean1" steps).text
      = "#\x7bbean1[bean2[bean3['key1']]]['a.b]\x7b'].property1\x7d" ∧
    (ofPath "bean1" steps).isTerm = true ∧
    (ofPath "bean1" steps).steps = .property "bean1" :: steps := by
  intro steps
  -- The characters of a name are looked at one by one.
  have hplain : ∀ name : String, (name.toList.all fun c => isPlain c && c != '.') = true →
      ∀ c ∈ name.toList, isPlain c = true ∧ c ≠ '.' := by
    intro name hall c hc
    simpa using List.all_eq_true.1 hall c hc
  have hroot : IsName "bean1" := ⟨by decide, by decide, hplain _ (by decide)⟩
  have hname : IsName "property1" := ⟨by decide, by decide, hplain _ (by decide)⟩
  have hbody : IsBody "bean2[bean3['key1']]" :=
    ⟨by decide, ⟨⟨"#\x7bbean2[bean3['key1']]\x7d"⟩, by decide, by decide⟩, by decide⟩
  have hsteps : ∀ s ∈ steps, s.IsWritable := by
    intro s hs
    simp only [steps, List.mem_cons, List.not_mem_nil, or_false] at hs
    rcases hs with rfl | rfl | rfl
    · exact hbody
    · show '\'' ∉ "a.b]\x7b".toList
      decide
    · exact hname
  obtain ⟨hterm, hread⟩ := steps_ofPath hroot hsteps
  exact ⟨by decide, hterm, hread⟩

end Binding

end FieldGuard
