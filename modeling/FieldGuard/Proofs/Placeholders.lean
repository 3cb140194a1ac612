import FieldGuard.Constraints.Wording

/-!
# `FieldGuard.Proofs.Placeholders`: what the standard messages of constraints say

In the message of a constraint, the name of a parameter in braces gives way to its value. The
values are not searched again. So the standard messages have a brace only where a parameter has
one, and the only parameters that may have one are expressions and lists of properties.

A name ends where a character does not belong to words. That the closing brace is such a character
is read from the first row of the table of categories; the other rows need not be read.

* `Pattern.Category.of_eq_of_head`: the category of a character that the first row decides;
* `Wording.fillFrom_name`: a name in braces gives way to the value of the parameter;
* `Rule.standardWording_cases`: the standard message of a rule with its parameters filled in.
-/

set_option autoImplicit false

namespace FieldGuard

namespace Pattern

namespace Category

/-- A run that has ended is not read again. -/
theorem prefix_readRuns (runs : List Run) (start : Nat) (current : Option (Category × Nat))
    (cs : List Char) : runs.reverse <+: readRuns runs start current cs := by
  have hclose : ∀ (runs : List Run) (start : Nat) (current : Option (Category × Nat)),
      runs.reverse <+: (closeRun runs start current).reverse := by
    intro runs start current
    cases current with
    | none => exact List.prefix_rfl
    | some run =>
      rw [closeRun, List.reverse_cons]
      exact List.prefix_append _ _
  induction cs generalizing runs start current with
  | nil => exact hclose runs start current
  | cons c rest ih =>
    cases current with
    | none => exact ih _ _ _
    | some run =>
      rw [readRuns]
      split
      · exact ih _ _ _
      · exact (hclose runs start (some run)).trans (ih _ _ _)

/-- A table begins with the runs of its first part, apart from the last one, which may be longer. -/
theorem dropLast_readRuns_prefix (runs : List Run) (start : Nat)
    (current : Option (Category × Nat)) (cs more : List Char) :
    (readRuns runs start current cs).dropLast <+: readRuns runs start current (cs ++ more) := by
  induction cs generalizing runs start current with
  | nil =>
    have hend : (readRuns runs start current []).dropLast <+: runs.reverse := by
      cases current with
      | none => exact List.dropLast_prefix _
      | some run =>
        have hlast : (readRuns runs start (some run) []).dropLast = runs.reverse := by
          rw [readRuns, closeRun, List.reverse_cons, List.dropLast_concat]
        exact hlast ▸ List.prefix_rfl
    exact hend.trans (prefix_readRuns _ _ _ _)
  | cons c rest ih =>
    cases current with
    | none => exact ih _ _ _
    | some run =>
      rw [List.cons_append, readRuns, readRuns]
      split
      · exact ih _ _ _
      · exact ih _ _ _

/-- The category of a character that the first row of the table decides. -/
theorem of_eq_of_head {c : Char} {category : Category} (hascii : ofAscii? c = none)
    (hrow : ((readRuns [] 0 none (rows.headD "").toList).dropLast.find?
      fun run => c.toNat < run.stop).map (·.category) = some category) : of c = category := by
  obtain ⟨run, hrun, rfl⟩ := Option.map_eq_some_iff.1 hrow
  have hfind : runs.find? (fun run => c.toNat < run.stop) = some run := by
    rw [runs]
    generalize rows = rows at hrun
    cases rows with
    | nil => simp [readRuns, closeRun] at hrun
    | cons row rest =>
      obtain ⟨others, hothers⟩ :=
        dropLast_readRuns_prefix [] 0 none row.toList (rest.flatMap String.toList)
      rw [List.flatMap_cons, ← hothers, List.find?_append]
      exact congrArg (Option.or · _) hrun
  rw [of, hascii, hfind]
  rfl

end Category

theorem Property.isWord_brace : isWord '\x7d' = false := by
  have hcategory : Category.of '\x7d' = .closePunctuation :=
    Category.of_eq_of_head (by decide +kernel) (by decide +kernel)
  unfold isWord
  rw [hcategory]
  decide +kernel

end Pattern

namespace Wording

variable {valueOf? : String → Option String}

theorem fillFrom_append {before : List Char} (h : '\x7b' ∉ before) (cs : List Char) :
    fillFrom valueOf? 0 (before ++ cs) = before ++ fillFrom valueOf? 0 cs := by
  induction before with
  | nil => rfl
  | cons c rest ih =>
    have hc : c ≠ '\x7b' := fun heq => h (heq ▸ List.mem_cons_self)
    have hrest : '\x7b' ∉ rest := fun hmem => h (List.mem_cons_of_mem c hmem)
    rw [List.cons_append, fillFrom, if_neg fun hopens => hc hopens.1, ih hrest]
    rfl

theorem fillFrom_skip (skip : Nat) (cs : List Char) :
    fillFrom valueOf? skip cs = fillFrom valueOf? 0 (cs.drop skip) := by
  induction cs generalizing skip with
  | nil =>
    rw [List.drop_nil]
    cases skip <;> rfl
  | cons c rest ih =>
    cases skip with
    | zero => rfl
    | succ skip => exact ih skip

/-- A name in braces that has a value gives way to it. -/
theorem fillFrom_name {name value : String} (hne : name.toList ≠ [])
    (hname : name.toList.all Pattern.Property.isWord = true)
    (hvalue : valueOf? name = some value) (cs : List Char) :
    fillFrom valueOf? 0 ('\x7b' :: (name.toList ++ '\x7d' :: cs))
      = value.toList ++ fillFrom valueOf? 0 cs := by
  have htake : (name.toList ++ '\x7d' :: cs).takeWhile Pattern.Property.isWord = name.toList := by
    rw [List.takeWhile_append_of_pos (List.all_eq_true.1 hname),
      List.takeWhile_cons_of_neg (by rw [Pattern.Property.isWord_brace]; exact Bool.false_ne_true),
      List.append_nil]
  have hclosed : ((name.toList ++ '\x7d' :: cs).drop name.toList.length).head? = some '\x7d' := by
    rw [List.drop_left]
    rfl
  have hafter : (name.toList ++ '\x7d' :: cs).drop (name.toList.length + 1) = cs := by
    rw [← List.drop_drop, List.drop_left]
    rfl
  rw [fillFrom]
  simp only [htake, hclosed, String.ofList_toList, hvalue]
  rw [if_pos ⟨trivial, hne, trivial⟩, fillFrom_skip, hafter]

/-- A message up to the first name in braces, the value of the name, and the rest. -/
theorem toList_fill {template : String} {before : List Char} {name value : String}
    {after : List Char}
    (htemplate : template.toList = before ++ '\x7b' :: (name.toList ++ '\x7d' :: after))
    (hbefore : '\x7b' ∉ before) (hne : name.toList ≠ [])
    (hname : name.toList.all Pattern.Property.isWord = true)
    (hvalue : valueOf? name = some value) :
    (fill valueOf? template).toList = before ++ (value.toList ++ fillFrom valueOf? 0 after) := by
  rw [fill, String.toList_ofList, htemplate, fillFrom_append hbefore,
    fillFrom_name hne hname hvalue]

end Wording

/-! ### Standard messages -/

theorem not_mem_toString_nat (n : Nat) : '\x7b' ∉ (toString n).toList := by
  intro hmem
  have hdigit : ('\x7b' : Char).isDigit = true :=
    Nat.isDigit_of_mem_toDigits (by decide) (by decide) (Nat.toList_repr ▸ hmem)
  exact absurd hdigit (by decide)

theorem not_mem_toString_int (i : Int) : '\x7b' ∉ (toString i).toList := by
  cases i with
  | ofNat n => exact not_mem_toString_nat n
  | negSucc n =>
    show '\x7b' ∉ ("-" ++ (n + 1).repr).toList
    rw [String.toList_append, List.mem_append, not_or]
    exact ⟨by decide, not_mem_toString_nat (n + 1)⟩

namespace Rule

/-- The parameter of a rule that is any text. -/
def freeText? : Rule → Option String
  | .pattern regexp => some regexp
  | .equal properties => some (", ".intercalate properties)
  | _ => none

/-- The standard message of a rule with its parameters filled in. -/
def standardWording (rule : Rule) : String :=
  Wording.fill rule.parameter? rule.standardMessage

/-! The messages with a parameter, as they are cut at the first one. -/

theorem toList_min (value : Int64) :
    (Rule.min value).standardWording.toList
      = "must be greater than or equal to ".toList ++ ((toString value.toInt).toList ++ []) := by
  have htemplate : "must be greater than or equal to \x7bvalue\x7d".toList
      = "must be greater than or equal to ".toList
        ++ '\x7b' :: ("value".toList ++ '\x7d' :: []) := by decide +kernel
  exact Wording.toList_fill htemplate (by decide) (by decide) (by decide +kernel) rfl

theorem toList_max (value : Int64) :
    (Rule.max value).standardWording.toList
      = "must be less than or equal to ".toList ++ ((toString value.toInt).toList ++ []) := by
  have htemplate : "must be less than or equal to \x7bvalue\x7d".toList
      = "must be less than or equal to ".toList
        ++ '\x7b' :: ("value".toList ++ '\x7d' :: []) := by decide +kernel
  exact Wording.toList_fill htemplate (by decide) (by decide) (by decide +kernel) rfl

theorem toList_pattern (regexp : String) :
    (Rule.pattern regexp).standardWording.toList
      = "must match \"".toList ++ (regexp.toList ++ "\"".toList) := by
  have htemplate : "must match \"\x7bregexp\x7d\"".toList
      = "must match \"".toList
        ++ '\x7b' :: ("regexp".toList ++ '\x7d' :: "\"".toList) := by decide +kernel
  have hafter : Wording.fillFrom (Rule.pattern regexp).parameter? 0 "\"".toList = "\"".toList :=
    Wording.fillFrom_of_no_brace (by decide)
  rw [← hafter]
  exact Wording.toList_fill htemplate (by decide) (by decide) (by decide +kernel) rfl

theorem toList_equal (properties : List String) :
    (Rule.equal properties).standardWording.toList
      = [] ++ ((", ".intercalate properties).toList ++ " must be equal".toList) := by
  have htemplate : "\x7bproperties\x7d must be equal".toList
      = [] ++ '\x7b' :: ("properties".toList ++ '\x7d' :: " must be equal".toList) := by
    decide +kernel
  have hafter : Wording.fillFrom (Rule.equal properties).parameter? 0 " must be equal".toList
      = " must be equal".toList := Wording.fillFrom_of_no_brace (by decide)
  rw [← hafter]
  exact Wording.toList_fill htemplate (by decide) (by decide) (by decide +kernel) rfl

theorem toList_size (least most : UInt64) :
    ∃ before after, (Rule.size least most).standardWording.toList
        = before ++ ((toString least.toNat).toList ++ after) ∧
      '\x7b' ∉ before ∧ '\x7b' ∉ after := by
  by_cases hmost : most = unbounded
  · have hmessage : (Rule.size least most).standardMessage = "size must be at least \x7bmin\x7d" :=
      if_pos hmost
    have htemplate : "size must be at least \x7bmin\x7d".toList
        = "size must be at least ".toList ++ '\x7b' :: ("min".toList ++ '\x7d' :: []) := by
      decide +kernel
    refine ⟨"size must be at least ".toList, [], ?_, by decide, by decide⟩
    rw [standardWording, hmessage]
    exact Wording.toList_fill htemplate (by decide) (by decide) (by decide +kernel) rfl
  · have hmessage : (Rule.size least most).standardMessage
        = "size must be between \x7bmin\x7d and \x7bmax\x7d" := if_neg hmost
    -- What follows the first parameter is a message with one parameter.
    have htemplate : "size must be between \x7bmin\x7d and \x7bmax\x7d".toList
        = "size must be between ".toList
          ++ '\x7b' :: ("min".toList ++ '\x7d' :: " and \x7bmax\x7d".toList) := by decide +kernel
    have hrest : " and \x7bmax\x7d".toList
        = " and ".toList ++ '\x7b' :: ("max".toList ++ '\x7d' :: []) := by decide +kernel
    have hmax : (Rule.size least most).parameter? "max" = some (toString most.toNat) := rfl
    have hafter : Wording.fillFrom (Rule.size least most).parameter? 0 " and \x7bmax\x7d".toList
        = " and ".toList ++ ((toString most.toNat).toList ++ []) := by
      rw [hrest, Wording.fillFrom_append (by decide),
        Wording.fillFrom_name (by decide) (by decide +kernel) hmax]
      rfl
    refine ⟨"size must be between ".toList, " and ".toList ++ ((toString most.toNat).toList ++ []),
      ?_, by decide, ?_⟩
    · rw [standardWording, hmessage, ← hafter]
      exact Wording.toList_fill htemplate (by decide) (by decide) (by decide +kernel) rfl
    · exact List.not_mem_append (by decide)
        (List.not_mem_append (not_mem_toString_nat _) List.not_mem_nil)

/-- The message has no brace, unless the rule has a text as its parameter. Then there is none before
or after that text. -/
theorem standardWording_cases (rule : Rule) :
    (rule.freeText? = none ∧ '\x7b' ∉ rule.standardWording.toList) ∨
      ∃ text before after, rule.freeText? = some text ∧
        rule.standardWording.toList = before ++ (text.toList ++ after) ∧
        '\x7b' ∉ before ∧ '\x7d' ∉ after := by
  cases rule with
  | notNull =>
    refine .inl ⟨rfl, ?_⟩
    rw [standardWording, Wording.fill_of_no_brace (by decide)]
    decide
  | email =>
    refine .inl ⟨rfl, ?_⟩
    rw [standardWording, Wording.fill_of_no_brace (by decide)]
    decide
  | min value =>
    refine .inl ⟨rfl, ?_⟩
    rw [toList_min]
    exact List.not_mem_append (by decide)
      (List.not_mem_append (not_mem_toString_int _) List.not_mem_nil)
  | max value =>
    refine .inl ⟨rfl, ?_⟩
    rw [toList_max]
    exact List.not_mem_append (by decide)
      (List.not_mem_append (not_mem_toString_int _) List.not_mem_nil)
  | size least most =>
    obtain ⟨before, after, hlist, hbefore, hafter⟩ := toList_size least most
    refine .inl ⟨rfl, ?_⟩
    rw [hlist]
    exact List.not_mem_append hbefore (List.not_mem_append (not_mem_toString_nat _) hafter)
  | pattern regexp =>
    exact .inr ⟨regexp, _, _, rfl, toList_pattern regexp, by decide, by decide⟩
  | equal properties =>
    exact .inr ⟨_, _, _, rfl, toList_equal properties, by decide, by decide⟩

end Rule

end FieldGuard
