import FieldGuard.Proofs.Acceptance
import FieldGuard.Proofs.ObjectValidation
import FieldGuard.Proofs.Placeholders
import FieldGuard.Proofs.QueueRuns

/-!
# `FieldGuard.Proofs.FailureText`: the text that is reported for a violation

The message of the first violation is put behind the slot for the label, and the standard reviewer
fills in the label wherever the slot occurs. Without a label the slot is left as it is, and the
plain message is reported instead. With a label the text is the label and the message, but the slot
is searched in the message, too. Parameters of constraints have been filled in by then, so the label
also stands where the slot came from an expression or from the name of a property.

* `Text.replace_eq_self_iff`: replacing changes every text that has an occurrence;
* `Rule.hasSlot_standardWording_iff`: which standard messages have the slot;
* `Engine.message_of_report`: what is reported with the standard reviewer;
* `failure_text_verbatim_iff`: the text of a failure, and when it has the message as it is;
* `failure_text_altered`: an expression that is reported with the label in it.
-/

set_option autoImplicit false

namespace FieldGuard

/-! ### Replacing -/

namespace Text

section

variable {needle substitute : List Char}

/-- Each occurrence that is replaced adds the same to the length. There is at least one if the text
has any. -/
theorem length_replaceFrom (hneedle : needle ≠ []) (substitute : List Char) (skip : Nat)
    (cs : List Char) :
    ∃ n, (replaceFrom needle substitute skip cs).length + n * needle.length
        = (cs.drop skip).length + n * substitute.length ∧
      (needle <:+: cs.drop skip → 0 < n) := by
  -- Along the replacement: at the end, inside an occurrence, at the start of one, and elsewhere.
  fun_induction replaceFrom needle substitute skip cs with
  | case1 skip =>
    refine ⟨0, by simp, fun hoccurs => ?_⟩
    rw [List.drop_nil] at hoccurs
    exact absurd (List.infix_nil.1 hoccurs) hneedle
  | case2 skip c rest ih => exact ih
  | case3 c rest hprefix ih =>
    obtain ⟨n, hlength, -⟩ := ih
    obtain ⟨after, hafter⟩ := List.isPrefixOf_iff_prefix.1 hprefix
    have hdrop : (rest.drop (needle.length - 1)).length + needle.length = (c :: rest).length := by
      have := List.length_pos_iff.2 hneedle
      have := congrArg List.length hafter
      simp only [List.length_append, List.length_cons, List.length_drop] at *
      omega
    refine ⟨n + 1, ?_, fun _ => n.succ_pos⟩
    rw [List.length_append, Nat.succ_mul, Nat.succ_mul, List.drop_zero]
    omega
  | case4 c rest hprefix ih =>
    obtain ⟨n, hlength, hpos⟩ := ih
    refine ⟨n, ?_, fun hoccurs => hpos ?_⟩
    · simp only [List.length_cons, List.drop_zero] at *
      omega
    · obtain hfirst | hrest := List.infix_cons_iff.1 hoccurs
      · exact absurd (List.isPrefixOf_iff_prefix.2 hfirst) hprefix
      · exact hrest

/-- Where a text stays the same although it has an occurrence, something of the same length was
replaced by itself. -/
theorem eq_of_replaceFrom_eq (hlength : substitute.length = needle.length) (skip : Nat)
    (cs : List Char) (hsame : replaceFrom needle substitute skip cs = cs.drop skip)
    (hoccurs : needle <:+: cs.drop skip) : substitute = needle := by
  fun_induction replaceFrom needle substitute skip cs with
  | case1 skip =>
    rw [List.drop_nil] at hoccurs
    rw [List.infix_nil.1 hoccurs] at hlength ⊢
    exact List.length_eq_zero_iff.1 hlength
  | case2 skip c rest ih => exact ih hsame hoccurs
  | case3 c rest hprefix ih =>
    obtain ⟨after, hafter⟩ := List.isPrefixOf_iff_prefix.1 hprefix
    rw [List.drop_zero, ← hafter] at hsame
    exact (List.append_inj hsame hlength).1
  | case4 c rest hprefix ih =>
    obtain hfirst | hrest := List.infix_cons_iff.1 hoccurs
    · exact absurd (List.isPrefixOf_iff_prefix.2 hfirst) hprefix
    · exact ih (List.cons.inj hsame).2 hrest

/-- Replacing changes every text that has an occurrence. -/
theorem replace_eq_self_iff {needle substitute : String} (hneedle : needle ≠ "")
    (hne : substitute ≠ needle) (text : String) :
    replace needle substitute text = text ↔ ¬ needle.toList <:+: text.toList := by
  refine ⟨fun hsame hoccurs => hne ?_, replace_of_not_infix⟩
  have hlist : replaceFrom needle.toList substitute.toList 0 text.toList = text.toList.drop 0 :=
    String.ofList_injective (hsame.trans String.ofList_toList.symm)
  obtain ⟨n, hlength, hpos⟩ := length_replaceFrom
    (fun hnil => hneedle (String.toList_inj.1 hnil)) substitute.toList 0 text.toList
  -- The length is the same although there is an occurrence, so it is replaced by a text as long.
  have hsubstitute : substitute.toList.length = needle.toList.length := by
    rw [hlist, Nat.add_left_cancel_iff] at hlength
    exact (Nat.eq_of_mul_eq_mul_left (hpos hoccurs) hlength).symm
  exact String.toList_inj.1 (eq_of_replaceFrom_eq hsubstitute 0 _ hlist hoccurs)

end

section

variable {cs : List Char}

/-- No occurrence begins in a text that lacks its first character. -/
theorem infix_append_left_iff {c : Char} {needle before : List Char} (h : c ∉ before) :
    c :: needle <:+: before ++ cs ↔ c :: needle <:+: cs := by
  induction before with
  | nil => rfl
  | cons d rest ih =>
    have hrest : c ∉ rest := fun hmem => h (List.mem_cons_of_mem d hmem)
    rw [List.cons_append, List.infix_cons_iff, ih hrest]
    refine ⟨fun hoccurs => hoccurs.resolve_left fun hprefix => ?_, Or.inr⟩
    rw [(List.cons_prefix_cons.1 hprefix).1] at h
    exact h List.mem_cons_self

/-- None ends in a text that lacks its last character. -/
theorem infix_append_right_iff {c : Char} {needle after : List Char} (h : c ∉ after) :
    needle ++ [c] <:+: cs ++ after ↔ needle ++ [c] <:+: cs := by
  have hreverse : ∀ text : List Char,
      needle ++ [c] <:+: text ↔ c :: needle.reverse <:+: text.reverse := by
    intro text
    rw [← List.reverse_infix, List.reverse_append]
    rfl
  rw [hreverse, hreverse, List.reverse_append]
  exact infix_append_left_iff (by simpa using h)

end

end Text

/-! ### The slot for the label -/

namespace Reviewer

/-- The slot for the label occurs in the text. -/
def HasSlot (text : String) : Prop :=
  labelSlot.toList <:+: text.toList

theorem not_hasSlot_of_no_brace {text : String} (h : '\x7b' ∉ text.toList) : ¬ HasSlot text :=
  fun hslot => h (hslot.subset (by decide))

/-- Text without a brace around another text adds no slot. -/
theorem hasSlot_iff_of_toList {text inner : String} {before after : List Char}
    (htext : text.toList = before ++ (inner.toList ++ after)) (hbefore : '\x7b' ∉ before)
    (hafter : '\x7d' ∉ after) : HasSlot text ↔ HasSlot inner := by
  have hslot : labelSlot.toList = ['\x7b', '0'] ++ ['\x7d'] := by decide
  have hleft : ['\x7b', '0'] ++ ['\x7d'] <:+: before ++ (inner.toList ++ after)
      ↔ ['\x7b', '0'] ++ ['\x7d'] <:+: inner.toList ++ after := Text.infix_append_left_iff hbefore
  rw [HasSlot, HasSlot, htext, hslot]
  exact hleft.trans (Text.infix_append_right_iff hafter)

/-- The label is filled into the slot before a message, and into those in the message. -/
theorem replace_labelled (label message : String) :
    Text.replace labelSlot label (labelSlot ++ ": " ++ message)
      = label ++ ": " ++ Text.replace labelSlot label message := by
  have hslot : labelSlot.toList = ['\x7b', '0', '\x7d'] := by decide
  have hcolon : ": ".toList = [':', ' '] := by decide
  rw [← String.toList_inj, Text.replace, Text.replace, String.toList_ofList]
  simp only [String.toList_append, String.toList_ofList, hslot, hcolon]
  simp [Text.replaceFrom]

end Reviewer

/-- The slot is in the standard message of a rule just when it is in its parameter, and that is any
text. -/
theorem Rule.hasSlot_standardWording_iff (rule : Rule) :
    Reviewer.HasSlot rule.standardWording ↔
      ∃ text, rule.freeText? = some text ∧ Reviewer.HasSlot text := by
  obtain ⟨hnone, hbrace⟩ | ⟨text, before, after, htext, hwording, hbefore, hafter⟩ :=
    rule.standardWording_cases
  · simp [hnone, Reviewer.not_hasSlot_of_no_brace hbrace]
  · simp [htext, Reviewer.hasSlot_iff_of_toList hwording hbefore hafter]

theorem Constraint.wording_of_no_message {c : Constraint} (h : c.message = none) :
    c.wording = c.rule.standardWording := by
  rw [wording, template, h]
  rfl

/-! ### Reports -/

namespace Engine

open Reviewer

theorem plainUnlessLabelled_of_label {label : String} (hlabel : label ≠ labelSlot)
    (v : Violation) :
    plainUnlessLabelled v (.error (Text.replace labelSlot label (labelled v)))
      = .error (Text.replace labelSlot label (labelled v)) := by
  -- The slot occurs at the beginning, so filling it in leaves another text.
  have hslot : labelSlot.toList <:+: (labelled v).toList := by
    rw [labelled, String.append_assoc, String.toList_append]
    exact (List.prefix_append _ _).isInfix
  have hchanged : Text.replace labelSlot label (labelled v) ≠ labelled v :=
    fun hsame => (Text.replace_eq_self_iff (by decide) hlabel _).1 hsame hslot
  rw [plainUnlessLabelled, if_neg]
  rintro (hsummary | hdetail)
  · exact hchanged hsummary
  · exact hchanged hdetail

/-- With the standard reviewer, the first violation is reported with the label in all slots, or
without a label as it is. -/
theorem message_of_report {e : Engine} {base : Registry Identity Reviewer}
    (hbase : StandardReviewers base) {p : Plugins}
    (hp : Registry.Offshoot (fun i => i.componentType) base p.reviewers) {i : Identity}
    {first : Violation} {rest : List Violation} {failure : Failure}
    (h : (e.report i (first :: rest) p).1 = some failure) :
    (i.label = none → failure.message = .error first.message) ∧
    ∀ label, i.label = some label → label ≠ labelSlot →
      failure.message = .error (label ++ ": " ++ Text.replace labelSlot label first.message) := by
  have hreview : (review i (first :: rest) (.error (labelled first)) p).1
      = (true, fillLabel i (.error (labelled first))) := by
    rw [review, run_bind, hbase.reviewerFor hp]
    rfl
  rw [report_cons, hreview] at h
  obtain rfl := Option.some.inj h
  dsimp only
  refine ⟨fun hnone => ?_, fun label hlabel hne => ?_⟩
  · rw [fillLabel, hnone]
    exact if_pos (Or.inl rfl)
  · rw [fillLabel, hlabel]
    exact (plainUnlessLabelled_of_label hne first).trans
      (congrArg Message.error (replace_labelled label first.message))

/-- So it is for submissions of engines with the standard reviewer, after any calls. -/
theorem message_of_submit {parts : EngineParts}
    (hreviewers : StandardReviewers parts.engine.plugins.reviewers) {s : Session}
    (hs : parts.engine.Reaches s) {c : Component} {text : String} {failure : Failure}
    (hfailed : (parts.engine.submit c text s).1 = .failed failure) {first : Violation}
    {rest : List Violation} (hviolations : failure.violations = first :: rest) :
    (c.label = none → failure.message = .error first.message) ∧
    ∀ label, c.label = some label → label ≠ labelSlot →
      failure.message = .error (label ++ ": " ++ Text.replace labelSlot label first.message) := by
  have hstable := Plugins.stable_reviewers hreviewers.steady hreviewers.keyed
  obtain ⟨fault, rfl⟩ | ⟨violations, p, hp, hreport⟩ :=
    report_of_submit hstable (EngineParts.reviewers_of_reaches hreviewers hs) hfailed
  · cases hviolations
  · obtain rfl := (violations_of_report hreport).symm.trans hviolations
    exact message_of_report hreviewers hp hreport

/-- Without hooks, the violations of a failed submission are all that were found. -/
theorem violations_of_submit {e : Engine} (hhooks : e.hooks = []) {c : Component} {text : String}
    (heditable : c.editable = true) {value : Value} (hconvert : c.convert text = .ok value)
    {s : Session} {b : Bound} (hbound : e.bound? (e.recorded c value s.request) c = some b)
    {failure : Failure} (h : (e.submit c text s).1 = .failed failure) :
    failure.violations = (e.violations c b (interpreted e.env.settings value)
      ⟨s.plugins, e.recorded c value s.request⟩).1 := by
  rw [submit_of_converted heditable hconvert, hbound] at h
  dsimp only at h
  rw [outcome_validateHooked e c b _ hhooks] at h
  cases hreport : (e.report c.identity _ _).1 with
  | none =>
    rw [hreport] at h
    cases h
  | some reported =>
    rw [hreport] at h
    cases h
    exact violations_of_report hreport

/-- A violation that the constraint engine finds has the template and the message of a constraint of
the property, or of one that such a constraint is composed with. -/
theorem exists_part_of_mem_constrained {e : Engine} {m : TypeModel}
    (hconstraints : e.env.constraints = .ofTypes m) {b : Bound} {value : Value}
    {groups : List String} {v : Violation} (hv : v ∈ e.constrained b value groups) :
    ∃ c ∈ m.constraintsOf b.owner.typeName b.details.property, ∃ k ∈ c.parts,
      v.template = k.template ∧ v.message = k.wording := by
  rw [constrained, hconstraints] at hv
  split at hv
  · cases hv
  · have hsome := List.ne_nil_of_mem hv
    obtain ⟨before, group, after, -, -, -, hfound⟩ := firstFound_split hsome
    change v ∈ firstFound _ groups at hv
    rw [hfound] at hv
    obtain ⟨c, hc, -, breach, hbreach, rfl⟩ := Constraints.mem_valueViolations.1 hv
    rw [Constraint.breaches_eq_parts] at hbreach
    obtain ⟨k, hk, rfl⟩ := List.mem_map.1 hbreach
    exact ⟨c, hc, k, (List.mem_filter.1 hk).1, rfl, rfl⟩

end Engine

/-- The text that is reported for a submission with violations, by an engine with the standard
reviewer and after any calls.

* Without a label it is the message of the first violation.
* With a label that is not the slot itself, it is the label, a colon and the message, with the label
  in every slot that the message has. That is the message as it is just when it has none.
* For a constraint with its standard message, that depends on the parameter that is any text: on
  the expression of a pattern, or the names of properties that should be equal. -/
theorem failure_text_verbatim_iff {parts : EngineParts}
    (hreviewers : Engine.StandardReviewers parts.engine.plugins.reviewers) {s : Session}
    (hs : parts.engine.Reaches s) {c : Component} {text : String} {failure : Failure}
    (hfailed : (parts.engine.submit c text s).1 = .failed failure) {first : Violation}
    {rest : List Violation} (hviolations : failure.violations = first :: rest) :
    (c.label = none → failure.message = .error first.message) ∧
    ∀ label, c.label = some label → label ≠ Reviewer.labelSlot →
      failure.message
        = .error (label ++ ": " ++ Text.replace Reviewer.labelSlot label first.message) ∧
      (failure.message = .error (label ++ ": " ++ first.message) ↔
        ¬ Reviewer.HasSlot first.message) ∧
      ∀ k : Constraint, k.message = none → first.message = k.wording →
        (failure.message = .error (label ++ ": " ++ k.wording) ↔
          ∀ free, k.rule.freeText? = some free → ¬ Reviewer.HasSlot free) := by
  obtain ⟨hplain, hlabelled⟩ := Engine.message_of_submit hreviewers hs hfailed hviolations
  refine ⟨hplain, fun label hlabel hne => ?_⟩
  have hmessage := hlabelled label hlabel hne
  have hverbatim : failure.message = .error (label ++ ": " ++ first.message) ↔
      ¬ Reviewer.HasSlot first.message := by
    rw [Reviewer.HasSlot, ← Text.replace_eq_self_iff (by decide) hne, hmessage]
    constructor
    · intro hsame
      exact (String.append_right_inj _).1 (congrArg Message.summary hsame)
    · intro hsame
      rw [hsame]
  refine ⟨hmessage, hverbatim, fun k hk hwording => ?_⟩
  rw [← hwording, hverbatim, hwording]
  rw [Constraint.wording_of_no_message hk, k.rule.hasSlot_standardWording_iff]
  simp only [not_exists, not_and]

/-! ### A code that does not match -/

/-- The code of a ticket has to match an expression, and its title must not be null. -/
def ticketParts : EngineParts where
  types := .ofTypes
    [{ name := "Ticket", properties :=
        [(PropertyDecl.new "code").onField (.constraint { rule := .pattern "T[0-9]\x7b0\x7dX" }),
          (PropertyDecl.new "title").onField (.constraint { rule := .notNull })] }]

theorem plain_ticketParts : ticketParts.Plain :=
  EngineParts.plain_of_unset rfl rfl rfl rfl rfl

/-- A page with one ticket. -/
def ticketPage : Request :=
  .new "/edit.xhtml" (Dict.ofList [("ticket", .object (Record.ofType "Ticket"))])

/-- A field for a property of the ticket. -/
def ticketField (label property : String) : Component where
  clientId := "form:" ++ property
  label := some label
  valueBinding := some ("#\x7bticket." ++ property ++ "\x7d")

/-- What is reported for a title that is missing. -/
theorem failure_text_verbatim_iff_title :
    let e := ticketParts.engine
    let s := Session.start e ticketPage
    ∃ failure first, (e.submit (ticketField "Title" "title") "" s).1 = .failed failure ∧
      failure.violations = [first] ∧ first.message = "may not be null" ∧
      failure.message = .error "Title: may not be null" := by
  intro e s
  have hmessages : ((e.submit (ticketField "Title" "title") "" s).1.failure?.map fun failure =>
      failure.violations.map (·.message)) = some ["may not be null"] := by decide +kernel
  cases hfailed : (e.submit (ticketField "Title" "title") "" s).1 with
  | valid =>
    rw [hfailed] at hmessages
    cases hmessages
  | failed failure =>
    rw [hfailed] at hmessages
    obtain ⟨first, hviolations, hmessage⟩ :=
      List.map_eq_singleton_iff.1 (Option.some.inj hmessages)
    obtain ⟨-, hlabelled⟩ := failure_text_verbatim_iff plain_ticketParts.standardReviewers
      ⟨[], ticketPage, rfl⟩ hfailed hviolations
    obtain ⟨-, hverbatim, -⟩ := hlabelled "Title" rfl (by decide)
    refine ⟨failure, first, rfl, hviolations, hmessage, ?_⟩
    rw [hmessage] at hverbatim
    exact hverbatim.2 (Reviewer.not_hasSlot_of_no_brace (by decide))

/-- A code that does not match is reported with the label inside the expression. The template of the
message has no slot for it. -/
theorem failure_text_altered :
    let e := ticketParts.engine
    let s := Session.start e ticketPage
    ∃ failure first, (e.submit (ticketField "Code" "code") "a" s).1 = .failed failure ∧
      failure.violations = [first] ∧ first.template = "must match \"\x7bregexp\x7d\"" ∧
      first.message = "must match \"T[0-9]\x7b0\x7dX\"" ∧
      failure.message = .error "Code: must match \"T[0-9]CodeX\"" := by
  intro e s
  let c := ticketField "Code" "code"
  have htemplates : ((e.submit c "a" s).1.failure?.map fun failure =>
      failure.violations.map (·.template)) = some ["must match \"\x7bregexp\x7d\""] := by
    decide +kernel
  -- The property has one constraint, and no strategy.
  have hproperty : ((e.bound? (e.recorded c (.text "a") s.request) c).map fun b =>
      (b.owner.typeName, b.details.property, (Engine.strategyViolations e.env
        (e.recorded c (.text "a") s.request) b (.text "a") b.info.entries s.plugins).1.length))
      = some ("Ticket", "code", 0) := by decide +kernel
  have hparts : ∀ k ∈ ticketParts.types.constraintsOf "Ticket" "code", ∀ part ∈ k.parts,
      part.message = none ∧ part.rule = .pattern "T[0-9]\x7b0\x7dX" := by decide +kernel
  have hwording : (Rule.pattern "T[0-9]\x7b0\x7dX").standardWording
      = "must match \"T[0-9]\x7b0\x7dX\"" := by
    rw [← String.toList_inj, Rule.toList_pattern]
    decide +kernel
  cases hfailed : (e.submit c "a" s).1 with
  | valid =>
    rw [hfailed] at htemplates
    cases htemplates
  | failed failure =>
    cases hbound : e.bound? (e.recorded c (.text "a") s.request) c with
    | none =>
      rw [hbound] at hproperty
      cases hproperty
    | some b =>
      rw [hfailed] at htemplates
      rw [hbound, Option.map_some, Option.some.injEq, Prod.mk.injEq, Prod.mk.injEq] at hproperty
      obtain ⟨htype, hname, hnone⟩ := hproperty
      obtain ⟨first, hviolations, htemplate⟩ :=
        List.map_eq_singleton_iff.1 (Option.some.inj htemplates)
      have hvalue : Engine.interpreted e.env.settings (.text "a") = .text "a" := rfl
      have hfound := Engine.violations_of_submit rfl rfl rfl hbound hfailed
      rw [hvalue, Engine.violations_fst,
        List.eq_nil_of_length_eq_zero hnone, List.nil_append, hviolations] at hfound
      obtain ⟨k, hk, part, hpart, -, hmessage⟩ :=
        Engine.exists_part_of_mem_constrained rfl (hfound ▸ List.mem_singleton_self first)
      rw [htype, hname] at hk
      obtain ⟨hnone, hrule⟩ := hparts k hk part hpart
      rw [Constraint.wording_of_no_message hnone, hrule, hwording] at hmessage
      obtain ⟨-, hlabelled⟩ := Engine.message_of_submit plain_ticketParts.standardReviewers
        ⟨[], ticketPage, rfl⟩ hfailed hviolations
      refine ⟨failure, first, rfl, hviolations, htemplate, hmessage, ?_⟩
      rw [hlabelled "Code" rfl (by decide), hmessage]
      decide +kernel

end FieldGuard
