import FieldGuard.Proofs.BoundValues
import FieldGuard.Proofs.ModelDemands
import FieldGuard.Proofs.Parts
import FieldGuard.Proofs.RelativePaths

/-!
# `FieldGuard.Proofs.Targets`: what the targets of a model validation stand for

A target is a path of properties or an expression. A path is followed from object to object, and
each property has to be readable. An expression goes through the parser, the literals, the scope and
a navigation that passes nulls on and fails at other values. Where all properties are readable the
two come to the same object, or both to none, however far the path gets (`Record.reach`).

The default target is written as an expression too. It is recognized only where it is the whole
list. In a longer list it is evaluated like any other expression, and names a bean.

* `Evaluation.literal?_of_path`, `Evaluation.operand?_of_path`: the path from an identifier is
  neither a literal nor a negation;
* `Evaluation.asBean?_walk`: navigation, as far as it comes to objects, is `Record.reach`;
* `ModelTargets.path_agrees_with_binding`: a path from a source and a binding that begins with its
  name;
* `ModelTargets.ofDemand_eq_meant_iff`: when every occurrence of the default target stands for the
  owner of the property;
* `ModelTargets.ofDemand_misses_account`: a list in which it does not.
-/

set_option autoImplicit false

namespace FieldGuard

open Text

/-! ### Identifiers -/

/-- A letter, a digit or an underscore. Beyond ASCII everything but a blank counts as a letter. -/
def isWord (c : Char) : Bool :=
  let n := c.toNat
  (0x30 ≤ n && n ≤ 0x39) || (0x41 ≤ n && n ≤ 0x5a) || n == 0x5f || (0x61 ≤ n && n ≤ 0x7a)
    || (0x80 ≤ n && !isBlank c)

/-- A name of letters, digits and underscores that does not begin with a digit. -/
structure IsIdentifier (name : String) : Prop where
  ne_nil : name.toList ≠ []
  words : ∀ c ∈ name.toList, isWord c = true
  first : ∀ c ∈ name.toList.head?, Number.isDigit c = false

theorem isIdentifier_iff {name : String} :
    IsIdentifier name ↔ name.toList ≠ [] ∧ name.toList.all isWord = true ∧
      name.toList.head?.all (fun c => !Number.isDigit c) = true := by
  simp only [List.all_eq_true, Option.all_eq_true, Bool.not_eq_true']
  exact ⟨fun h => ⟨h.ne_nil, h.words, h.first⟩, fun h => ⟨h.1, h.2.1, h.2.2⟩⟩

instance (name : String) : Decidable (IsIdentifier name) :=
  decidable_of_iff _ isIdentifier_iff.symm

theorem isBlank_of_isWord {c : Char} (h : isWord c = true) : isBlank c = false := by
  simp only [isWord, Bool.or_eq_true, Bool.and_eq_true, Bool.not_eq_true', decide_eq_true_eq,
    beq_iff_eq] at h
  -- Letters, digits and the underscore of ASCII lie between two ranges of blanks.
  have hrange : (0x30 ≤ c.toNat ∧ c.toNat ≤ 0x7a) ∨ isBlank c = false := by
    rcases h with hascii | hbeyond
    · left
      omega
    · exact .inr hbeyond.2
  rcases hrange with ⟨hlow, hhigh⟩ | hblank
  · simp only [isBlank, Bool.or_eq_false_iff, Bool.and_eq_false_iff, decide_eq_false_iff_not,
      beq_eq_false_iff_ne]
    omega
  · exact hblank

theorem ne_of_isWord {c d : Char} (hc : isWord c = true) (hd : isWord d = false) : c ≠ d := by
  rintro rfl
  simp [hc] at hd

/-- Of the characters with a meaning in expressions none is a letter, a digit or an underscore. -/
theorem isPlain_of_isWord {c : Char} (h : isWord c = true) :
    Binding.isPlain c = true ∧ c ≠ '.' := by
  have hne : ∀ d : Char, isWord d = false → c ≠ d := fun _ => ne_of_isWord h
  simp [Binding.isPlain, Binding.isQuote, Binding.isBrace, hne '\'' (by decide),
    hne '"' (by decide), hne '\x7b' (by decide), hne '\x7d' (by decide), hne '[' (by decide),
    hne ']' (by decide), hne '.' (by decide)]

namespace IsIdentifier

variable {name : String} (h : IsIdentifier name)
include h

theorem isName : IsName name where
  ne_nil := h.ne_nil
  trimmed := trim_eq_self
    (fun c hc => isBlank_of_isWord (h.words c (List.mem_of_mem_head? hc)))
    (fun c hc => isBlank_of_isWord (h.words c (List.mem_of_getLast? hc)))
  plain c hc := isPlain_of_isWord (h.words c hc)

/-- An identifier begins with a letter or an underscore. -/
theorem exists_cons : ∃ c rest, name.toList = c :: rest ∧ isWord c = true ∧
    Number.isDigit c = false := by
  cases hname : name.toList with
  | nil => exact absurd hname h.ne_nil
  | cons c rest =>
    refine ⟨c, rest, rfl, h.words c (by simp [hname]), h.first c (by simp [hname])⟩

end IsIdentifier

/-! ### Names with dots between them -/

/-- Names with dots between them are cut into these names again. -/
theorem dotted_names {names : List String} (hnames : names ≠ [])
    (hplain : ∀ name ∈ names, IsName name) : dotted (".".intercalate names) = names := by
  induction names with
  | nil => exact absurd rfl hnames
  | cons first rest ih =>
    obtain ⟨hfirst, hrest⟩ := List.forall_mem_cons.1 hplain
    cases rest with
    | nil => simpa using dotted_of_not_mem hfirst.dot_not_mem
    | cons second rest =>
      rw [dotted_intercalate, dotted_of_not_mem hfirst.dot_not_mem, ih (by simp) hrest]
      rfl

theorem isTerm_of_not_mem {text : String} (h : '\x7b' ∉ text.toList) : isTerm text = false := by
  show Binding.isTermText text.toList = false
  unfold Binding.isTermText
  split
  · next heq =>
    -- The opening delimiter would be among the characters.
    have hmem : '\x7b' ∈ trim text.toList := by simp [heq]
    have hfront := trimRight_prefix (text.toList.dropWhile isBlank)
    exact absurd ((List.dropWhile_sublist _).mem (hfront.sublist.mem hmem)) h
  · rfl

/-- Names with dots between them are not an expression. -/
theorem isTerm_names {names : List String} (hplain : ∀ name ∈ names, IsName name) :
    isTerm (".".intercalate names) = false := by
  have hbrace : ∀ name ∈ names, '\x7b' ∉ name.toList := by
    intro name hname hmem
    exact absurd ((hplain name hname).plain _ hmem).1 (by decide)
  cases names with
  | nil => decide
  | cons first rest =>
    obtain ⟨hfirst, hrest⟩ := List.forall_mem_cons.1 hbrace
    refine isTerm_of_not_mem ?_
    rw [toList_intercalate_dot, List.mem_append, not_or]
    refine ⟨hfirst, fun hmem => ?_⟩
    obtain ⟨step, hstep, hwritten⟩ := List.mem_flatMap.1 hmem
    obtain ⟨name, hname, rfl⟩ := List.mem_map.1 hstep
    rcases List.mem_cons.1 hwritten with hdot | hname'
    · cases hdot
    · exact hrest name hname hname'

/-! ### A path from an identifier -/

/-- A whole number begins with a digit or a sign. -/
theorem Number.readInt64?_eq_none {c : Char} {cs : List Char} (hdigit : isDigit c = false)
    (hminus : c ≠ '-') (hplus : c ≠ '+') : readInt64? (String.ofList (c :: cs)) = none := by
  have hsign : splitSign (c :: cs) = (false, c :: cs) := by
    unfold splitSign
    split
    · next heq => exact absurd (List.cons.inj heq).1 hminus
    · next heq => exact absurd (List.cons.inj heq).1 hplus
    · rfl
  rw [readInt64?, String.toList_ofList, readInt?, hsign]
  simp [hdigit]

namespace Evaluation

section

variable {root : String} (h : IsIdentifier root)
include h

/-- What follows the identifier is a dot, and not the blank that a negation would need. -/
theorem operand?_of_path (rest : List Char) : operand? (root.toList ++ '.' :: rest) = none := by
  have hdrop : (root.toList ++ '.' :: rest).dropWhile isWord = '.' :: rest := by
    rw [List.dropWhile_append_of_pos h.words]
    rfl
  obtain ⟨c, more, hroot, hword, -⟩ := h.exists_cons
  unfold operand?
  split
  · next operand heq =>
    rw [hroot] at heq
    cases heq
    cases hword
  · next operand heq =>
    rw [heq] at hdrop
    cases hdrop
  · rfl

/-- The words and texts among the literals have no dot or begin with a quote, and the numbers begin
with a digit or a sign. -/
theorem literal?_of_path (rest : List Char) : literal? (root.toList ++ '.' :: rest) = none := by
  obtain ⟨c, more, hroot, hword, hdigit⟩ := h.exists_cons
  have hne : ∀ d : Char, isWord d = false → c ≠ d := fun _ => ne_of_isWord hword
  have hcs : root.toList ++ '.' :: rest = c :: (more ++ '.' :: rest) := by
    rw [hroot, List.cons_append]
  have hdot : '.' ∈ c :: (more ++ '.' :: rest) := by simp
  have hquoted : Binding.isQuoted (c :: (more ++ '.' :: rest)) = false := by
    have hquote : Binding.isQuote c = false :=
      (Binding.ne_of_isPlain (isPlain_of_isWord hword).1).1
    simp [Binding.isQuoted, hquote]
  have hinteger : Number.readInt64? (String.ofList (c :: (more ++ '.' :: rest))) = none :=
    Number.readInt64?_eq_none hdigit (hne '-' (by decide)) (hne '+' (by decide))
  have hnumber : beginsNumber (c :: (more ++ '.' :: rest)) = false := by
    simp [beginsNumber, hdigit, hne '-' (by decide)]
  have hword? : ∀ word : String, '.' ∉ word.toList →
      String.ofList (c :: (more ++ '.' :: rest)) ≠ word := by
    rintro word hnone rfl
    rw [String.toList_ofList] at hnone
    exact hnone hdot
  rw [hcs]
  unfold literal?
  split
  · next heq => exact absurd heq (hword? "true" (by decide))
  · next heq => exact absurd heq (hword? "false" (by decide))
  · next heq => exact absurd heq (hword? "null" (by decide))
  · rw [hquoted, hinteger, hnumber]
    rfl

end

end Evaluation

namespace Binding

variable {root : String} (hroot : IsName root) {names : List String}
include hroot

theorem text_extend_wrap : ((wrap root.toList).extend names).text
    = "#\x7b" ++ ".".intercalate (root :: names) ++ "\x7d" := by
  refine String.toList_injective ?_
  rw [extend_wrap hroot.trimmed, wrap, String.toList_ofList, String.toList_append,
    String.toList_append, toList_intercalate_dot]
  rfl

variable (hnames : ∀ name ∈ names, IsName name)
include hnames

theorem inside_extend_wrap : ((wrap root.toList).extend names).inside
    = root.toList ++ (names.map Step.property).flatMap Step.written := by
  rw [extend_wrap hroot.trimmed, inside_wrap]
  exact (stepsOf_append (isInside_of_isName hroot) (Step.isWritable_properties hnames)).1.trimmed

theorem steps_extend_wrap : ((wrap root.toList).extend names).isTerm = true ∧
    ((wrap root.toList).extend names).steps = .property root :: names.map Step.property := by
  obtain ⟨hterm, hsteps⟩ := extend_spec (isTerm_wrap (isInside_of_isName hroot)) hnames
  rw [steps_wrap hroot] at hsteps
  exact ⟨hterm, hsteps⟩

end Binding

/-! ### From object to object -/

namespace Record

/-- The object that a path leads to, if every property on it holds an object. -/
def reach : Bean → List String → Option Bean
  | bean, [] => some bean
  | bean, name :: rest =>
    ((bean.property? name).bind Value.asBean?).bind fun next => reach next rest

theorem asBean?_valueOf (bean : Bean) (name : String) :
    (bean.valueOf name).asBean? = (bean.property? name).bind Value.asBean? := by
  rw [valueOf]
  cases bean.property? name <;> rfl

theorem bind_asBean?_eq_none_iff {bean : Bean} {name : String} :
    (bean.property? name).bind Value.asBean? = none ↔
      ∀ next, bean.property? name ≠ some (.object next) := by
  cases hvalue : bean.property? name with
  | none => simp
  | some value => cases value <;> simp [Value.asBean?]

/-- A path leads nowhere just when it comes to a property that is missing or holds no object. -/
theorem reach_eq_none_iff {bean : Bean} {names : List String} :
    bean.reach names = none ↔ ∃ front name rest stop, names = front ++ name :: rest ∧
      bean.reach front = some stop ∧ ∀ next, stop.property? name ≠ some (.object next) := by
  induction names generalizing bean with
  | nil => simp [reach]
  | cons name rest ih =>
    rw [reach]
    cases hread : (bean.property? name).bind Value.asBean? with
    | none =>
      refine ⟨fun _ => ⟨[], name, rest, bean, rfl, rfl, ?_⟩, fun _ => rfl⟩
      exact bind_asBean?_eq_none_iff.1 hread
    | some next =>
      rw [Option.bind_some, ih]
      constructor
      · rintro ⟨front, last, others, stop, rfl, hfront, hstop⟩
        refine ⟨name :: front, last, others, stop, rfl, ?_, hstop⟩
        rw [reach, hread, Option.bind_some, hfront]
      · rintro ⟨front, last, others, stop, hsplit, hfront, hstop⟩
        cases front with
        | nil =>
          -- The first property holds an object, so the path does not stop there.
          cases hfront
          cases hsplit
          rw [bind_asBean?_eq_none_iff.2 hstop] at hread
          cases hread
        | cons first front =>
          cases hsplit
          rw [reach, hread, Option.bind_some] at hfront
          exact ⟨front, last, others, stop, rfl, hfront, hstop⟩

end Record

namespace Evaluation

/-- Navigation passes nulls on and fails at other values, and reaches an object in no other way
than through objects. -/
theorem asBean?_walk (nested : List Char → Except Fault Value) (value : Value)
    (names : List String) :
    (walk nested value (names.map Step.property)).toOption.bind Value.asBean?
      = value.asBean?.bind fun bean => bean.reach names := by
  induction names generalizing value with
  | nil => cases value <;> rfl
  | cons name rest ih =>
    -- From anything but an object there is no way to one.
    cases value with
    | object bean =>
      show (walk nested (bean.valueOf name) (rest.map Step.property)).toOption.bind Value.asBean?
        = bean.reach (name :: rest)
      rw [ih, Record.asBean?_valueOf, Record.reach]
    | null => rfl
    | bool _ => rfl
    | integer _ => rfl
    | decimal _ => rfl
    | text _ => rfl

end Evaluation

namespace ModelTargets

/-! ### Paths -/

/-- All properties that the path reads are readable, each on the type of the object it is read
from. -/
def Readable (m : TypeModel) : Bean → List String → Prop
  | _, [] => True
  | bean, name :: rest => (m.readableAccessor? bean.typeName name).isSome = true ∧
      ∀ next ∈ (bean.property? name).bind Value.asBean?, Readable m next rest

instance Readable.decidable (m : TypeModel) :
    (bean : Bean) → (names : List String) → Decidable (Readable m bean names)
  | _, [] => inferInstanceAs (Decidable True)
  | bean, name :: rest =>
    have (next : Bean) : Decidable (Readable m next rest) := Readable.decidable m next rest
    inferInstanceAs (Decidable ((m.readableAccessor? bean.typeName name).isSome = true ∧
      ∀ next ∈ (bean.property? name).bind Value.asBean?, Readable m next rest))

theorem follow_eq_reach {m : TypeModel} {bean : Bean} {names : List String}
    (h : Readable m bean names) : follow m bean names = bean.reach names := by
  induction names generalizing bean with
  | nil => rfl
  | cons name rest ih =>
    rw [follow, Record.reach, if_pos h.1]
    cases hread : (bean.property? name).bind Value.asBean? with
    | none => rfl
    | some next => exact ih (h.2 next hread)

section

variable {env : Environment} (hevaluator : env.evaluator = .standard)
include hevaluator

theorem resolve?_of_names {names : List String} (hnames : names ≠ [])
    (hplain : ∀ name ∈ names, IsName name) (page : Page) (source : Bean) :
    resolve? env page source (".".intercalate names) = follow env.types source names := by
  rw [resolve?, hevaluator, dotted_names hnames hplain]
  simp [Evaluator.standard, isTerm_names hplain]

/-- An expression stands for its value, if that is an object. -/
theorem resolve?_of_isTerm {b : Binding} (h : b.isTerm = true) (page : Page) (source : Bean) :
    resolve? env page source b.text
      = (Evaluation.valueOf page.scope b.text).toOption.bind Value.asBean? := by
  have hterm : isTerm b.text = true := h
  rw [resolve?, hevaluator]
  cases hvalue : Evaluation.valueOf page.scope b.text <;>
    simp [Evaluator.standard, hterm, hvalue, Except.isOk, Except.toBool, Except.toOption]

/-- The path from a named object, as an expression, leads where the names after it lead. -/
theorem resolve?_of_path {root : String} (hroot : IsIdentifier root) {page : Page} {bean : Bean}
    (hbean : page.scope.get? root = some (.object bean)) {names : List String}
    (hnames : names ≠ []) (hplain : ∀ name ∈ names, IsName name) (source : Bean) :
    resolve? env page source ("#\x7b" ++ ".".intercalate (root :: names) ++ "\x7d")
      = bean.reach names := by
  obtain ⟨hterm, hsteps⟩ := Binding.steps_extend_wrap hroot.isName hplain
  -- There is a dot after the identifier.
  obtain ⟨rest, hinside⟩ : ∃ rest,
      ((Binding.wrap root.toList).extend names).inside = root.toList ++ '.' :: rest := by
    obtain ⟨first, others, rfl⟩ := List.exists_cons_of_ne_nil hnames
    exact ⟨_, Binding.inside_extend_wrap hroot.isName hplain⟩
  have hoperand := hinside ▸ Evaluation.operand?_of_path hroot rest
  have hliteral := hinside ▸ Evaluation.literal?_of_path hroot rest
  rw [← Binding.text_extend_wrap hroot.isName, resolve?_of_isTerm hevaluator hterm,
    Evaluation.valueOf_path hterm hoperand hliteral, hsteps, Evaluation.follow, Step.name, hbean]
  exact Evaluation.asBean?_walk _ (.object bean) names

end

/-- A path of readable properties from an object that is in scope under an identifier, and the
expression that begins with this identifier, stand for the same object, whatever source the
expression is resolved from. They stand for none just when a property on the path is missing or
holds no object. -/
theorem path_agrees_with_binding {env : Environment} (hevaluator : env.evaluator = .standard)
    {page : Page} {root : String} (hroot : IsIdentifier root) {source : Bean}
    (hsource : page.scope.get? root = some (.object source)) {names : List String}
    (hnames : names ≠ []) (hplain : ∀ name ∈ names, IsName name)
    (hreadable : Readable env.types source names) (start : Bean) :
    let path := ".".intercalate names
    let binding := "#\x7b" ++ ".".intercalate (root :: names) ++ "\x7d"
    resolve? env page source path = resolve? env page start binding ∧
    resolve? env page source path = source.reach names ∧
    (source.reach names = none ↔ ∃ front name rest stop, names = front ++ name :: rest ∧
      source.reach front = some stop ∧ ∀ next, stop.property? name ≠ some (.object next)) := by
  intro path binding
  -- Both are read off the objects alone, one by its names and one by its steps.
  have hpath : resolve? env page source path = source.reach names := by
    rw [resolve?_of_names hevaluator hnames hplain, follow_eq_reach hreadable]
  have hbinding : resolve? env page start binding = source.reach names :=
    resolve?_of_path hevaluator hroot hsource hnames hplain start
  exact ⟨hpath.trans hbinding.symm, hpath, Record.reach_eq_none_iff⟩

/-- The home of the account of a registration, and that of its guest, which is null. -/
theorem path_agrees_with_binding_home :
    let types : TypeModel := .ofTypes
      [{ name := "Registration", properties := [.new "account", .new "guest"] },
        { name := "Account", properties := [.new "home"] }]
    let home : Bean := ⟨3, "Address", []⟩
    let reg : Bean := ⟨1, "Registration",
      [("account", .object ⟨2, "Account", [("home", .object home)]⟩), ("guest", .null)]⟩
    let page : Page := ⟨"/edit.xhtml", Dict.ofList [("reg", .object reg)]⟩
    IsIdentifier "reg" ∧ Readable types reg ["account", "home"] ∧
    Readable types reg ["guest", "home"] ∧
    resolve? { types } page reg "account.home" = some home ∧
    resolve? { types } page home "#\x7breg.account.home\x7d" = some home ∧
    resolve? { types } page reg "guest.home" = none ∧
    resolve? { types } page home "#\x7breg.guest.home\x7d" = none := by
  intro types home reg page
  have hroot : IsIdentifier "reg" := by decide
  have hhome : Readable types reg ["account", "home"] := by decide +kernel
  have hguest : Readable types reg ["guest", "home"] := by decide +kernel
  have hsource : page.scope.get? "reg" = some (.object reg) := rfl
  have hevaluator : ({ types } : Environment).evaluator = .standard := rfl
  obtain ⟨hsame, hreach, -⟩ := path_agrees_with_binding hevaluator hroot hsource
    (by decide) (by decide) hhome home
  obtain ⟨hsame', hreach', hnone⟩ := path_agrees_with_binding hevaluator hroot hsource
    (by decide) (by decide) hguest home
  have hstops : reg.reach ["guest", "home"] = none :=
    hnone.2 ⟨[], "guest", ["home"], reg, rfl, rfl, fun next hnext => nomatch hnext⟩
  exact ⟨hroot, hhome, hguest, hreach, hsame.symm.trans hreach, hreach'.trans hstops,
    hsame'.symm.trans (hreach'.trans hstops)⟩

/-! ### The default target -/

/-- What a target of the demand is meant to stand for. -/
def meant (env : Environment) (page : Page) (d : ModelDemand) (target : String) : Option Bean :=
  if target = defaultTarget then some d.defaultTarget else resolve? env page d.source target

theorem resolve?_default {env : Environment} (hevaluator : env.evaluator = .standard) (page : Page)
    (source : Bean) : resolve? env page source defaultTarget
      = (page.scope.get? "default").bind Value.asBean? := by
  have hterm : Binding.isTerm ⟨defaultTarget⟩ = true := by decide
  have hsteps : Binding.steps ⟨defaultTarget⟩ = [.property "default"] := by decide +kernel
  have hresolve := resolve?_of_isTerm hevaluator hterm page source
  rw [Evaluation.valueOf_path hterm (by decide +kernel) (by decide +kernel), hsteps,
    Evaluation.follow, Step.name] at hresolve
  rw [hresolve]
  cases page.scope.get? "default" <;> rfl

/-- Evaluated as an expression, the default target stands for what it is meant to just when it
evaluates to the owner of the property. -/
theorem filterMap_resolve?_eq_iff {env : Environment} {page : Page} {d : ModelDemand} :
    d.targets.filterMap (resolve? env page d.source) = d.targets.filterMap (meant env page d) ↔
      (defaultTarget ∈ d.targets →
        resolve? env page d.source defaultTarget = some d.defaultTarget) := by
  -- Whatever is found is also meant to be found, so the lists agree target by target.
  have hkept : ∀ target ∈ d.targets, (resolve? env page d.source target).isSome = true →
      (meant env page d target).isSome = true := by
    intro target _ hsome
    rw [meant]
    split
    · rfl
    · exact hsome
  rw [filterMap_eq_filterMap_iff hkept]
  constructor
  · intro hall hdefault
    exact (hall _ hdefault).trans (if_pos rfl)
  · intro hdefault target htarget
    rw [meant]
    split
    · next h =>
      subst h
      exact hdefault htarget
    · rfl

/-- The objects of a demand, one target after the other. The default target stands for the owner
of the property if it is the only target. In any other list it stands for what the evaluator makes
of it as an expression, and for the standard evaluator this is the value named `default`. So every
target stands for what it is meant to just when the default target does not occur, is alone, or is
the name of the owner. -/
theorem ofDemand_eq_meant_iff (env : Environment) (page : Page) (d : ModelDemand) :
    let elsewhere := resolve? env page d.source defaultTarget
    ofDemand env page d = d.targets.filterMap (fun target =>
      if target = defaultTarget then
        if d.targets = [defaultTarget] then some d.defaultTarget else elsewhere
      else resolve? env page d.source target) ∧
    (ofDemand env page d = d.targets.filterMap (meant env page d) ↔
      (defaultTarget ∈ d.targets →
        d.targets = [defaultTarget] ∨ elsewhere = some d.defaultTarget)) ∧
    (env.evaluator = .standard → elsewhere = (page.scope.get? "default").bind Value.asBean?) := by
  intro elsewhere
  refine ⟨?_, ?_, fun hevaluator => resolve?_default hevaluator page d.source⟩
  · rw [ofDemand]
    by_cases halone : d.targets = [defaultTarget]
    · rw [if_pos halone, halone]
      simp
    · rw [if_neg halone]
      refine List.filterMap_congr fun target _ => ?_
      by_cases htarget : target = defaultTarget
      · rw [if_pos htarget, if_neg halone, htarget]
      · rw [if_neg htarget]
  · rw [ofDemand]
    by_cases halone : d.targets = [defaultTarget]
    · rw [if_pos halone, halone]
      simp [meant]
    · rw [if_neg halone, filterMap_resolve?_eq_iff, or_iff_right halone]

/-- A registration that asks for the owner of a property and its own address to be validated. The
account needs a password, and the address a city. -/
def ownerAndAddressParts : EngineParts where
  types := .ofTypes
    [{ name := "Registration"
       annotations := [.controller { modelValidation := {
         isActive := true, targets := [defaultTarget, "address"] } }]
       properties := [.new "account", .new "address"] },
      { name := "Account"
        properties := [.new "email",
          (PropertyDecl.new "password").onField (.constraint { rule := .notNull })] },
      { name := "Address"
        properties := [(PropertyDecl.new "city").onField (.constraint { rule := .notNull })] }]

/-- A field of the account waits with both targets, but only the address is validated. -/
theorem ofDemand_misses_account :
    let e := ownerAndAddressParts.engine
    let submitted := (e.submit emailField "a@b.at" (Session.start e registrationPage)).2
    let page := submitted.request.page
    (∃ d ∈ submitted.request.queue.demands page.view,
      d.targets = [defaultTarget, "address"] ∧
      (ofDemand e.env page d).map (·.typeName) = ["Address"] ∧
      (d.targets.filterMap (meant e.env page d)).map (·.typeName) = ["Account", "Address"] ∧
      ofDemand e.env page d ≠ d.targets.filterMap (meant e.env page d)) ∧
    (e.drain submitted).1.map (·.targetType) = ["Address"] := by
  intro e submitted page
  have hwaiting : (submitted.request.queue.demands page.view).map (fun d =>
      (d.targets, (ofDemand e.env page d).map (·.typeName),
        (d.targets.filterMap (meant e.env page d)).map (·.typeName)))
      = [([defaultTarget, "address"], ["Address"], ["Account", "Address"])] := by
    decide +kernel
  obtain ⟨d, hone, hd⟩ := List.map_eq_singleton_iff.1 hwaiting
  obtain ⟨htargets, hobjects, hmeant⟩ : d.targets = [defaultTarget, "address"] ∧
      (ofDemand e.env page d).map (·.typeName) = ["Address"] ∧
      (d.targets.filterMap (meant e.env page d)).map (·.typeName) = ["Account", "Address"] := by
    simpa using hd
  refine ⟨⟨d, by simp [hone], htargets, hobjects, hmeant, fun heq => ?_⟩, by decide +kernel⟩
  rw [heq, hmeant] at hobjects
  simp at hobjects

end ModelTargets

end FieldGuard
