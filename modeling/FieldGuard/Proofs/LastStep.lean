import FieldGuard.Binding.Edit
import FieldGuard.Proofs.WrittenPaths

/-!
# `FieldGuard.Proofs.LastStep`: an edit changes the last step only

An edit takes the inside of an expression, or what is left when its last step is cut off, and
writes a name after it. That the steps in front are read back as they were takes that the text in
front is an inside again: trimmed, balanced and not empty. For a cut in brackets and for one at a
dot the reason is the same, that a balanced text is read from its end in balanced parts.

* `isInside_of_splitLast`: what is left when the last step is cut off is an inside;
* `splitLast_of_base?`, `bases_eq`: the base of any text, and its base, and so on;
* `edit_changes_last_step`: the steps of an edited expression, and edits after edits.
-/

set_option autoImplicit false

namespace FieldGuard

open Text

namespace Binding

theorem isBlank_of_isQuote {q : Char} (h : isQuote q = true) : isBlank q = false := by
  rcases eq_of_isQuote h with rfl | rfl <;> decide

/-! ### Trimming a balanced text -/

namespace Balanced

theorem dropWhile_isBlank {cs : List Char} (h : Balanced cs) :
    Balanced (cs.dropWhile isBlank) := by
  induction h with
  | nil => exact .nil
  | @plain c rest hc hrest ih =>
    by_cases hblank : isBlank c = true
    · rw [List.dropWhile_cons_of_pos hblank]
      exact ih
    · rw [List.dropWhile_cons_of_neg hblank]
      exact .plain hc hrest
  | @quoted q inner rest hq hinner hrest _ =>
    rw [List.cons_append, List.dropWhile_cons_of_neg (by simp [isBlank_of_isQuote hq])]
    exact .quoted hq hinner hrest
  | bracketed hinner hrest _ _ =>
    rw [List.cons_append, List.dropWhile_cons_of_neg (by decide)]
    exact .bracketed hinner hrest

theorem trimRight {cs : List Char} (h : Balanced cs) : Balanced (trimRight cs) := by
  -- A text that ends without a blank is left alone.
  have hkeep : ∀ (xs : List Char) {c : Char}, isBlank c = false →
      Text.trimRight (xs ++ [c]) = xs ++ [c] := by
    intro xs c hc
    simp [Text.trimRight, hc]
  induction h using induction_right with
  | nil => exact .nil
  | @plain before c hb hc ih =>
    by_cases hblank : isBlank c = true
    · have hdrop : Text.trimRight (before ++ [c]) = Text.trimRight before := by
        simp [Text.trimRight, hblank]
      rw [hdrop]
      exact ih
    · rw [hkeep before (by simpa using hblank)]
      exact hb.append (.plain hc .nil)
  | quoted hb hq hinner _ =>
    rw [← List.append_assoc, hkeep _ (isBlank_of_isQuote hq), List.append_assoc]
    exact hb.append (.quote hq hinner)
  | bracketed hb hinner _ =>
    rw [← List.append_assoc, hkeep _ (by decide), List.append_assoc]
    exact hb.append (.bracket hinner)

theorem trim {cs : List Char} (h : Balanced cs) : Balanced (trim cs) :=
  h.dropWhile_isBlank.trimRight

end Balanced

/-! ### Cutting off the last step -/

theorem isInside_of_nonBlank? {cs base : List Char} (h : Balanced cs)
    (hbase : nonBlank? cs = some base) : IsInside base := by
  rw [nonBlank?] at hbase
  split at hbase
  · cases hbase
  · next hne =>
    cases hbase
    exact ⟨hne, trim_trim cs, h.trim⟩

/-- Where the last step is cut off, a balanced text is left. -/
theorem balanced_of_cutLast? {cs before : List Char} {step : Step} (h : Balanced cs)
    (hcut : cutLast? cs = some (before, step)) : Balanced before := by
  by_cases hlast : cs.getLast? = some ']'
  · obtain ⟨left, content, rfl, hleft, hcontent⟩ := h.exists_bracket hlast
    rw [cutLast?_bracket hcontent] at hcut
    cases hcut
    exact hleft
  · -- The cut is at a dot, with anything after it that has none outside quotes and brackets.
    rw [cutLast?, if_neg hlast] at hcut
    obtain ⟨⟨left, after⟩, hdot, heq⟩ := Option.map_eq_some_iff.1 hcut
    cases heq
    exact h.of_cutBack hdot

/-- What is left when the last step is cut off is an inside. -/
theorem isInside_of_splitLast {cs base : List Char} {step : Step} (h : IsInside cs)
    (hsplit : splitLast cs = (some base, step)) : IsInside base := by
  rw [splitLast] at hsplit
  split at hsplit
  · next before last hcut =>
    exact isInside_of_nonBlank? (balanced_of_cutLast? h.balanced hcut)
      (congrArg Prod.fst hsplit)
  · cases hsplit

/-! ### The base of any text -/

/-- What is left when the last step is cut off has no blanks around it, also for a text that is not
balanced. -/
theorem trim_of_splitLast {cs base : List Char} {step : Step}
    (h : splitLast cs = (some base, step)) : trim base = base := by
  rw [splitLast] at h
  split at h
  · next before last hcut =>
    have hbase : nonBlank? before = some base := congrArg Prod.fst h
    rw [nonBlank?] at hbase
    split at hbase
    · cases hbase
    · cases hbase
      exact trim_trim before
  · cases h

/-- So the base of a binding is what its last step was cut off from, between delimiters. -/
theorem splitLast_of_base? {b base : Binding} (h : b.base? = some base) :
    splitLast b.inside = (some base.inside, b.lastStep) ∧ base = wrap base.inside := by
  obtain ⟨front, hfront, rfl⟩ := Option.map_eq_some_iff.1 h
  have hsplit : splitLast b.inside = (some front, b.lastStep) := Prod.ext hfront rfl
  rw [inside_wrap, trim_of_splitLast hsplit]
  exact ⟨hsplit, rfl⟩

/-- Without a base there is the last step alone. -/
theorem splitLast_of_base?_eq_none {b : Binding} (h : b.base? = none) :
    splitLast b.inside = (none, b.lastStep) :=
  Prod.ext (Option.map_eq_none_iff.1 h) rfl

/-- The bases are the base, its base, and so on. -/
theorem bases_eq (b : Binding) :
    b.bases = match b.base? with
      | none => []
      | some base => base :: base.bases := by
  rw [bases, basesOf_eq]
  cases h : b.base? with
  | none => rw [splitLast_of_base?_eq_none h, List.map_nil]
  | some base =>
    obtain ⟨hsplit, hwrap⟩ := splitLast_of_base? h
    rw [hsplit, List.map_cons, ← hwrap]
    rfl

/-! ### Writing a name after it -/

section

variable {cs : List Char} (h : IsInside cs) {p : String} (hp : IsName p)
include h hp

theorem isInside_dot : IsInside (cs ++ '.' :: p.toList) :=
  h.append_written (s := .property p) hp

theorem splitLast_dot : splitLast (dot cs p.toList).inside = (some cs, .property p) := by
  rw [dot, inside_wrap, (isInside_dot h hp).trimmed]
  exact splitLast_written (s := .property p) h hp

theorem steps_dot : (dot cs p.toList).steps = stepsOf cs ++ [.property p] := by
  rw [steps, stepsOf_eq, splitLast_dot h hp]

theorem replaceProperty_dot (q : String) :
    (dot cs p.toList).replaceProperty q = dot cs q.toList := by
  rw [replaceProperty, splitLast_dot h hp]

end

section

variable {p : String} (hp : IsName p)
include hp

theorem splitLast_wrap : splitLast (wrap p.toList).inside = (none, .property p) := by
  rw [inside_wrap, hp.trimmed, splitLast_bare hp]

theorem steps_wrap : (wrap p.toList).steps = [.property p] := by
  rw [steps, stepsOf_eq, splitLast_wrap hp]

theorem replaceProperty_wrap (q : String) :
    (wrap p.toList).replaceProperty q = wrap q.toList := by
  rw [replaceProperty, splitLast_wrap hp]

end

/-- A well-formed expression is its last step alone, or that step after an inside. What the edit of
the step keeps is in the first case nothing, in the second the inside. -/
theorem lastStep_cases {e : Binding} (he : e.isTerm = true) :
    (e.steps = [e.lastStep] ∧ ∀ p, e.replaceProperty p = wrap p.toList) ∨
    ∃ front, IsInside front ∧ e.steps = stepsOf front ++ [e.lastStep] ∧
      ∀ p, e.replaceProperty p = dot front p.toList := by
  have hsteps := stepsOf_eq e.inside
  unfold steps lastStep replaceProperty
  cases hsplit : splitLast e.inside with
  | mk base step =>
    rw [hsplit] at hsteps
    cases base with
    | none => exact .inl ⟨hsteps, fun _ => rfl⟩
    | some front =>
      exact .inr ⟨front, isInside_of_splitLast (isInside_inside he) hsplit, hsteps, fun _ => rfl⟩

/-- Edits of a well-formed expression are well-formed. Adding a property adds one step, and
replacing it replaces the last one, with all steps in front as they are. An edit that is replaced
afterwards has left nothing behind. -/
theorem edit_changes_last_step {e : Binding} (he : e.isTerm = true) {p : String} (hp : IsName p)
    (q : String) :
    ((e.addProperty p).isTerm = true ∧ (e.replaceProperty p).isTerm = true) ∧
    (e.addProperty p).steps = e.steps ++ [.property p] ∧
    (∃ front, e.steps = front ++ [e.lastStep] ∧
      (e.replaceProperty p).steps = front ++ [.property p]) ∧
    (e.replaceProperty p).replaceProperty q = e.replaceProperty q ∧
    (e.addProperty p).replaceProperty q = e.addProperty q := by
  have hinside := isInside_inside he
  have hterm : (e.addProperty p).isTerm = true := isTerm_wrap (isInside_dot hinside hp)
  have hsteps : (e.addProperty p).steps = e.steps ++ [.property p] := steps_dot hinside hp
  have hadded : (e.addProperty p).replaceProperty q = e.addProperty q :=
    replaceProperty_dot hinside hp q
  -- Every edit of the last step writes after the same text, or after nothing.
  obtain ⟨hlast, hreplace⟩ | ⟨front, hfront, hlast, hreplace⟩ := lastStep_cases he
  · rw [hreplace p, hreplace q]
    exact ⟨⟨hterm, isTerm_wrap (isInside_of_isName hp)⟩, hsteps, ⟨[], hlast, steps_wrap hp⟩,
      replaceProperty_wrap hp q, hadded⟩
  · rw [hreplace p, hreplace q]
    exact ⟨⟨hterm, isTerm_wrap (isInside_dot hfront hp)⟩, hsteps,
      ⟨stepsOf front, hlast, steps_dot hfront hp⟩, replaceProperty_dot hfront hp q, hadded⟩

/-- A term with blanks around its steps, and with a key that has a dot and a bracket in it. -/
theorem edit_changes_last_step_order :
    let e : Binding := ⟨" #\x7b order[ items['a.b]'] ] . code \x7d "⟩
    e.isTerm = true ∧ IsName "total" ∧
    e.steps = [.property "order", .dynamic "items['a.b]']", .property "code"] ∧
    (e.addProperty "total").text = "#\x7border[ items['a.b]'] ] . code.total\x7d" ∧
    (e.addProperty "total").steps = e.steps ++ [.property "total"] ∧
    (e.replaceProperty "total").text = "#\x7border[ items['a.b]'] ].total\x7d" ∧
    (∃ front, e.steps = front ++ [e.lastStep] ∧
      (e.replaceProperty "total").steps = front ++ [.property "total"]) ∧
    (e.replaceProperty "total").replaceProperty "code" = e.replaceProperty "code" := by
  intro e
  have hterm : e.isTerm = true := by decide
  have hname : IsName "total" := by decide
  obtain ⟨-, hadded, hreplaced, htwice, -⟩ := edit_changes_last_step hterm hname "code"
  exact ⟨hterm, hname, by decide +kernel, by decide +kernel, hadded, by decide +kernel, hreplaced,
    htwice⟩

end Binding

end FieldGuard
