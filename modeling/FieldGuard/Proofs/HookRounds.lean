import FieldGuard.Proofs.Unresolved
import Mathlib.Data.List.Forall2

/-!
# `FieldGuard.Proofs.HookRounds`: hooks run in two rounds, or not at all

A submission that gets to the validation of a value runs all hooks before it and all hooks after
it, in their order, and it runs the second round whatever came of the first one. If a hook has
refused, nothing happens in between. Otherwise the value is checked, and what the checks have found
is there for the second round to see, also if the failure is suppressed.

To say this, a validation is told as a list of acts. Each act says what it yields, and has one
effect on the session. The hooks may be any functions, so that the session at the end shows in which
order they have run. Hooks that write into the journal make it visible: there is one line for every
run of a hook, and nothing else writes there.

* `Engine.Act`, `Engine.Does`, `Engine.Performs`: acts, and the sessions they lead to;
* `Engine.performs_before`, `Engine.performs_after`: a round of hooks, by induction on the hooks;
* `Engine.Between`, `Engine.performs_validate`: what happens between the rounds;
* `Engine.Performs.journal_rounds`: the lines of hooks that note their runs;
* `hooks_balanced`: every submission.
-/

set_option autoImplicit false

namespace FieldGuard

namespace PropertyInfo

/-- The information with the violations of a validation, if it has found any. -/
def withViolations (info : PropertyInfo) : List Violation → PropertyInfo
  | [] => info
  | found => info.setFact violationsKey (.violations found)

theorem violations?_withViolations {info : PropertyInfo} {found : List Violation}
    (h : found ≠ []) : (info.withViolations found).violations? = some found := by
  cases found with
  | nil => exact absurd rfl h
  | cons first rest => simp [withViolations, violations?, setFact]

/-- What an extraction tells has no violations. -/
theorem violations?_ofEntries (d : Details) (entries : List Entry) :
    (ofEntries d entries).violations? = none := by
  simp [violations?, ofEntries, Dict.get?_insert]

end PropertyInfo

/-- The hook writes a line with its name whenever it runs, and no other line. -/
structure Hook.Notes (hook : Hook) (name : String) : Prop where
  before : ∀ c value info r,
    (hook.before c value info r).2.journal = r.journal ++ ["before " ++ name]
  after : ∀ c value info r, (hook.after c value info r).journal = r.journal ++ ["after " ++ name]

namespace Engine

/-- The standard extractor tells no violations. -/
theorem violations?_of_bound {e : Engine} (h : e.extractor = .standard) {r : Request}
    {c : Component} {b : Bound} (hbound : e.bound? r c = some b) :
    b.info.violations? = none := by
  have hinfo := (extract_of_bound hbound).1
  rw [extract, h] at hinfo
  obtain ⟨d, _, entries, _, hentries⟩ := Extraction.located_of_extract hinfo
  rw [← hentries, PropertyInfo.violations?_ofEntries]

/-- Without groups the standard constraint engine finds nothing, so that it makes no difference
that it is not asked. -/
theorem constrained_ofTypes {e : Engine} {m : TypeModel} (h : e.env.constraints = .ofTypes m)
    (b : Bound) (value : Value) (groups : List String) :
    e.constrained b value groups
      = e.env.constraints.validateValue b.owner.typeName b.details.property value groups := by
  rw [constrained, h]
  cases groups with
  | nil => rfl
  | cons group rest => rfl

/-! ### Acts -/

/-- What happens while a value is validated, with what comes of it. -/
inductive Act where
  /-- A hook runs before the validation and agrees to it or not. -/
  | before (hook : Hook) (agreed : Bool)
  /-- The strategies check the value. -/
  | strategies (found : List Violation)
  /-- The groups are resolved and registered, and model validations are queued. -/
  | groups (groups : List String)
  /-- The constraint engine checks the value in the groups. It is not asked without any. -/
  | constraints (groups : List String) (found : List Violation)
  /-- Violations are reported, as a failure unless it is suppressed. -/
  | report (found : List Violation) (failure : Option Failure)
  /-- A hook runs after the validation and sees what is known about the property then. -/
  | after (hook : Hook) (info : PropertyInfo)
  /-- The component comes to a stage. -/
  | stage (stage : Stage)

section

variable (e : Engine) (c : Component) (b : Bound) (value : Value)

/-- What an act does to the session, and what it yields there. -/
inductive Does : Act → Session → Session → Prop where
  | before (hook : Hook) (s : Session) :
    Does (.before hook (hook.before c value b.info s.request).1) s
      { s with request := (hook.before c value b.info s.request).2 }
  | strategies (s : Session) :
    Does
      (.strategies (strategyViolations e.env s.request b value b.info.entries s.plugins).1) s
      { s with plugins :=
          (strategyViolations e.env s.request b value b.info.entries s.plugins).2 }
  | groups (s : Session) :
    Does (.groups (Groups.resolve e.env c.identity b.details true s.request).1) s
      { s with request := (Groups.resolve e.env c.identity b.details true s.request).2 }
  | constraints (groups : List String) (s : Session) :
    Does (.constraints groups (e.constrained b value groups)) s s
  | report (found : List Violation) (s : Session) :
    Does (.report found (e.reportIn c.identity found s).1) s (e.reportIn c.identity found s).2
  | after (hook : Hook) (info : PropertyInfo) (s : Session) :
    Does (.after hook info) s { s with request := hook.after c value info s.request }
  | stage (stage : Stage) (s : Session) :
    Does (.stage stage) s { s with request := s.request.setStage c.clientId stage }

/-- Acts one after the other. -/
inductive Performs : List Act → Session → Session → Prop where
  | nil (s : Session) : Performs [] s s
  | cons {act : Act} {acts : List Act} {s t u : Session} (first : e.Does c b value act s t)
    (rest : Performs acts t u) : Performs (act :: acts) s u

variable {e c b value}

theorem Performs.append {first second : List Act} {s t u : Session}
    (hfirst : e.Performs c b value first s t) (hsecond : e.Performs c b value second t u) :
    e.Performs c b value (first ++ second) s u := by
  induction hfirst with
  | nil => exact hsecond
  | cons hact _ ih => exact .cons hact (ih hsecond)

theorem Performs.exists_between {first second : List Act} {s u : Session}
    (h : e.Performs c b value (first ++ second) s u) :
    ∃ t, e.Performs c b value first s t ∧ e.Performs c b value second t u := by
  induction first generalizing s with
  | nil => exact ⟨s, .nil s, h⟩
  | cons act rest ih =>
    cases h with
    | cons hact hrest =>
      obtain ⟨t, hfirst, hsecond⟩ := ih hrest
      exact ⟨t, .cons hact hfirst, hsecond⟩

theorem Performs.of_does {act : Act} {s t : Session} (h : e.Does c b value act s t) :
    e.Performs c b value [act] s t :=
  .cons h (.nil t)

variable (e c b value)

/-! ### The rounds of hooks -/

/-- All hooks run before a validation, also after one that refuses. All have to agree. -/
theorem performs_before (hooks : List Hook) (s : Session) :
    ∃ answers : List (Hook × Bool), answers.map Prod.fst = hooks ∧
      (Hook.runBefore c value b.info hooks s.request).1 = answers.all Prod.snd ∧
      e.Performs c b value (answers.map fun answer => .before answer.1 answer.2) s
        { s with request := (Hook.runBefore c value b.info hooks s.request).2 } := by
  induction hooks generalizing s with
  | nil => exact ⟨[], rfl, rfl, .nil s⟩
  | cons hook rest ih =>
    obtain ⟨answers, hhooks, hagreed, hrest⟩ :=
      ih { s with request := (hook.before c value b.info s.request).2 }
    refine ⟨(hook, (hook.before c value b.info s.request).1) :: answers, ?_, ?_, ?_⟩
    · rw [List.map_cons, hhooks]
    · rw [List.all_cons, ← hagreed]
      rfl
    · exact .cons (.before hook s) hrest

/-- All hooks run after a validation, and all see the same. -/
theorem performs_after (info : PropertyInfo) (hooks : List Hook) (s : Session) :
    e.Performs c b value (hooks.map fun hook => .after hook info) s
      { s with request := Hook.runAfter c value info hooks s.request } := by
  induction hooks generalizing s with
  | nil => exact .nil s
  | cons hook rest ih => exact .cons (.after hook info s) (ih _)

/-! ### Between the rounds -/

/-- The checks of a value, with what they find. -/
def checks (own : List Violation) (groups : List String) (constrained : List Violation) :
    List Act :=
  [.strategies own, .groups groups, .stage .groupsResolved, .constraints groups constrained,
    .stage .validated]

/-- What happens between the rounds by the answers of the hooks, with the violations that are found
and the failure that comes of them. -/
inductive Between (answers : List Bool) :
    List Act → List Violation → Option Failure → Prop where
  /-- A hook has refused. -/
  | refused (h : false ∈ answers) : Between answers [] [] none
  /-- All hooks have agreed, and nothing is found. -/
  | sound (h : ∀ agreed ∈ answers, agreed = true) (groups : List String) :
    Between answers (checks [] groups []) [] none
  /-- All hooks have agreed, and what is found is reported. -/
  | violated (h : ∀ agreed ∈ answers, agreed = true) {own constrained found : List Violation}
    (groups : List String) (failure : Option Failure) (hfound : own ++ constrained = found)
    (hne : found ≠ []) :
    Between answers (checks own groups constrained ++ [.report found failure]) found failure

theorem performs_validate {answers : List Bool} (h : ∀ agreed ∈ answers, agreed = true)
    (s : Session) :
    ∃ acts found failure, Between answers acts found failure ∧
      e.Performs c b value acts s (e.validate c b value s).2 ∧
      (e.validate c b value s).1 = (failure, b.info.withViolations found) := by
  let checked := strategyViolations e.env s.request b value b.info.entries s.plugins
  let own := checked.1
  let groups := (Groups.resolve e.env c.identity b.details true s.request).1
  let constrained := e.constrained b value groups
  have hfound : (e.violations c b value s).1 = own ++ constrained := violations_fst e c b value s
  have hchecks : e.Performs c b value (checks own groups constrained) s
      (e.violations c b value s).2 := by
    rw [violations_snd]
    refine .cons (.strategies s) ?_
    refine .cons (.groups { s with plugins := checked.2 }) ?_
    refine .cons (.stage .groupsResolved _) ?_
    refine .cons (.constraints groups _) ?_
    exact .of_does (.stage .validated _)
  rw [validate, run_bind, hfound]
  cases hcase : own ++ constrained with
  | nil =>
    obtain ⟨hown, hconstrained⟩ := List.append_eq_nil_iff.1 hcase
    rw [hown, hconstrained] at hchecks
    exact ⟨_, [], none, .sound h groups, hchecks, rfl⟩
  | cons first rest =>
    let after := e.reportIn c.identity (first :: rest) (e.violations c b value s).2
    have hreport : e.Performs c b value [.report (first :: rest) after.1]
        (e.violations c b value s).2 after.2 := .of_does (.report _ _)
    exact ⟨_, first :: rest, after.1, .violated h groups _ hcase (List.cons_ne_nil first rest),
      hchecks.append hreport, rfl⟩

/-- All that happens in a validation: the first round with its answers, what is between, and the
second round. At last the component comes to the stage of the outcome. -/
def rounds (answers : List (Hook × Bool)) (between : List Act) (info : PropertyInfo)
    (failure : Option Failure) : List Act :=
  answers.map (fun answer => .before answer.1 answer.2) ++ between
    ++ answers.map (fun answer => .after answer.1 info)
    ++ [.stage (if failure.isSome then .failed else .valid)]

/-- A validation is the first round, what is between, and the second round, whatever comes of it. -/
theorem performs_validateHooked (s : Session) :
    ∃ (answers : List (Hook × Bool)) (acts : List Act) (found : List Violation)
      (failure : Option Failure),
      answers.map Prod.fst = e.hooks ∧ Between (answers.map Prod.snd) acts found failure ∧
      e.Performs c b value (rounds answers acts (b.info.withViolations found) failure) s
        (e.validateHooked c b value s).2 ∧
      (e.validateHooked c b value s).1 = outcomeOf failure := by
  obtain ⟨answers, hhooks, hagreed, hbefore⟩ := performs_before e c b value e.hooks s
  let t : Session := { s with request := (Hook.runBefore c value b.info e.hooks s.request).2 }
  have hanswer : (Session.run (Hook.runBefore c value b.info e.hooks) s).1
      = answers.all Prod.snd := hagreed
  -- What is between the rounds leads to the session that the second round starts in.
  have hmiddle : ∃ acts found failure, ∃ u : Session,
      Between (answers.map Prod.snd) acts found failure ∧ e.Performs c b value acts t u ∧
      e.validateHooked c b value s
        = (outcomeOf failure,
            { u with
              request := (Hook.runAfter c value (b.info.withViolations found) e.hooks
                u.request).setStage c.clientId (if failure.isSome then .failed else .valid) }) := by
    rw [validateHooked, run_bind, hanswer]
    cases hall : answers.all Prod.snd with
    | false =>
      have hrefused : false ∈ answers.map Prod.snd := by
        obtain ⟨answer, hmem, hno⟩ := List.all_eq_false.1 hall
        exact List.mem_map.2 ⟨answer, hmem, by simpa using hno⟩
      exact ⟨[], [], none, t, .refused hrefused, .nil t, rfl⟩
    | true =>
      have hagree : ∀ agreed ∈ answers.map Prod.snd, agreed = true := by
        simpa using hall
      obtain ⟨acts, found, failure, hbetween, hacts, hyields⟩ :=
        performs_validate e c b value hagree t
      refine ⟨acts, found, failure, _, hbetween, hacts, ?_⟩
      show (e.validate c b value >>= _) t = _
      rw [run_bind, hyields]
      rfl
  obtain ⟨acts, found, failure, u, hbetween, hacts, hrun⟩ := hmiddle
  have hafter := performs_after e c b value (b.info.withViolations found) e.hooks u
  rw [← hhooks, List.map_map] at hafter
  refine ⟨answers, acts, found, failure, hhooks, hbetween, ?_, ?_⟩
  · rw [hrun, ← hhooks]
    exact ((hbefore.append hacts).append hafter).append (.of_does (.stage _ _))
  · rw [hrun]

end

/-! ### The journal -/

/-- Whether the act is not the run of a hook. -/
def Act.IsQuiet : Act → Prop
  | .before _ _ => False
  | .after _ _ => False
  | _ => True

theorem Between.isQuiet {answers : List Bool} {acts : List Act} {found : List Violation}
    {failure : Option Failure} (h : Between answers acts found failure) :
    ∀ act ∈ acts, act.IsQuiet := by
  cases h <;> simp [checks, Act.IsQuiet]

section

variable {e : Engine} {c : Component} {b : Bound} {value : Value} {s t : Session}

/-- Nothing but the hooks writes into the journal. -/
theorem Does.journal {act : Act} (h : e.Does c b value act s t) (hquiet : act.IsQuiet) :
    t.request.journal = s.request.journal := by
  cases h with
  | before => exact hquiet.elim
  | after => exact hquiet.elim
  | groups =>
    rw [Groups.resolve_eq]
    rfl
  | report => rw [reportIn_snd]
  | strategies => rfl
  | constraints => rfl
  | stage => rfl

theorem Performs.journal {acts : List Act} (h : e.Performs c b value acts s t)
    (hquiet : ∀ act ∈ acts, act.IsQuiet) : t.request.journal = s.request.journal := by
  induction h with
  | nil => rfl
  | cons first _ ih =>
    rw [ih fun act hact => hquiet act (List.mem_cons_of_mem _ hact),
      first.journal (hquiet _ List.mem_cons_self)]

/-- A round in which every hook writes its line leaves the lines of all hooks, in their order. -/
theorem Performs.journal_round {run : Hook × Bool → Act} {line : String → String}
    (hline : ∀ answer name s t, answer.1.Notes name → e.Does c b value (run answer) s t →
      t.request.journal = s.request.journal ++ [line name])
    {answers : List (Hook × Bool)} {names : List String}
    (hnotes : List.Forall₂ Hook.Notes (answers.map Prod.fst) names)
    (h : e.Performs c b value (answers.map run) s t) :
    t.request.journal = s.request.journal ++ names.map line := by
  induction answers generalizing names s with
  | nil =>
    cases hnotes
    cases h
    simp
  | cons answer rest ih =>
    cases hnotes with
    | cons hnote hnotes =>
      cases h with
      | cons hfirst hrest =>
        rw [ih hnotes hrest, hline _ _ _ _ hnote hfirst]
        simp

theorem Performs.journal_rounds {answers : List (Hook × Bool)} {acts : List Act}
    {found : List Violation} {failure : Option Failure} {info : PropertyInfo} {names : List String}
    (hbetween : Between (answers.map Prod.snd) acts found failure)
    (hnotes : List.Forall₂ Hook.Notes (answers.map Prod.fst) names)
    (h : e.Performs c b value (rounds answers acts info failure) s t) :
    t.request.journal
      = s.request.journal ++ names.map ("before " ++ ·) ++ names.map ("after " ++ ·) := by
  obtain ⟨u, h, hstage⟩ := h.exists_between
  obtain ⟨v, h, hafter⟩ := h.exists_between
  obtain ⟨w, hbefore, hacts⟩ := h.exists_between
  have hfirst : w.request.journal = s.request.journal ++ names.map ("before " ++ ·) := by
    refine hbefore.journal_round (fun ⟨hook, agreed⟩ name s t hnote hdoes => ?_) hnotes
    dsimp only at hdoes
    cases hdoes
    exact hnote.before c value b.info s.request
  have hsecond : u.request.journal = v.request.journal ++ names.map ("after " ++ ·) := by
    refine hafter.journal_round (fun ⟨hook, agreed⟩ name s t hnote hdoes => ?_) hnotes
    dsimp only at hdoes
    cases hdoes
    exact hnote.after c value info s.request
  have hlast := hstage.journal (by simp [Act.IsQuiet])
  rw [hlast, hsecond, hacts.journal hbetween.isQuiet, hfirst]

end

/-! ### Submissions -/

/-- A submission that is over before any hook could run. -/
inductive EndsEarly (e : Engine) (c : Component) (text : String) (r : Request) : Prop where
  /-- The component cannot be edited. -/
  | readOnly (h : c.editable = false)
  /-- The text does not convert. -/
  | unconverted {fault : ConversionFault} (h : c.convert text = .error fault)
  /-- The extraction fails, or it finds no details or no object. -/
  | unresolved {value : Value} (hconvert : c.convert text = .ok value)
    (h : e.Unresolved (e.recorded c value r) c)

/-- The hooks have no part in such a submission. -/
theorem submit_of_endsEarly {e : Engine} {c : Component} {text : String} {s : Session}
    (h : e.EndsEarly c text s.request) (hooks : List Hook) :
    { e with hooks }.submit c text s = e.submit c text s := by
  cases heditable : c.editable with
  | false => rw [submit_of_not_editable heditable, submit_of_not_editable heditable]
  | true =>
    cases h with
    | readOnly h => simp [h] at heditable
    | unconverted h => rw [submit_of_refused heditable h, submit_of_refused heditable h]
    | unresolved hconvert h =>
      rw [submit_of_unresolved hconvert fun _ => h]
      exact submit_of_unresolved (e := { e with hooks }) hconvert fun _ => h

end Engine

/-- Hooks are balanced: a submission ends early, and then no hook has any part in it, or it runs
all hooks before the validation and all hooks after it, each once and in their order.

If a hook refuses, the others run all the same, and nothing happens between the rounds. If all
agree, the value is checked by the strategies, the groups are resolved and registered, model
validations are queued, and the constraint engine checks the value. Without any groups it is not
asked; the standard one would find nothing in them. What is found is reported. The second round
sees just that, if it is anything, whether the failure is suppressed or not. The standard extractor
leaves nothing else there to be seen. -/
theorem hooks_balanced (e : Engine) (c : Component) (text : String) (s : Session) :
    (e.EndsEarly c text s.request ∧
      ∀ hooks, { e with hooks }.submit c text s = e.submit c text s) ∨
    ∃ value b, c.editable = true ∧ c.convert text = .ok value ∧
      e.bound? (e.recorded c value s.request) c = some b ∧
      (∃ (answers : List (Hook × Bool)) (acts : List Engine.Act) (found : List Violation)
        (failure : Option Failure),
        answers.map Prod.fst = e.hooks ∧
        Engine.Between (answers.map Prod.snd) acts found failure ∧
        e.Performs c b (Engine.interpreted e.env.settings value)
          (Engine.rounds answers acts (b.info.withViolations found) failure)
          ⟨s.plugins, e.recorded c value s.request⟩ (e.submit c text s).2 ∧
        (e.submit c text s).1 = Engine.outcomeOf failure) ∧
      (∀ names, List.Forall₂ Hook.Notes e.hooks names →
        (e.submit c text s).2.request.journal
          = (e.recorded c value s.request).journal
            ++ names.map ("before " ++ ·) ++ names.map ("after " ++ ·)) ∧
      (∀ found, found ≠ [] → (b.info.withViolations found).violations? = some found) ∧
      (e.extractor = .standard → (b.info.withViolations []).violations? = none) ∧
      ∀ types, e.env.constraints = .ofTypes types → ∀ groups,
        e.constrained b (Engine.interpreted e.env.settings value) groups
          = e.env.constraints.validateValue b.owner.typeName b.details.property
              (Engine.interpreted e.env.settings value) groups := by
  have hearly (h : e.EndsEarly c text s.request) := And.intro h (Engine.submit_of_endsEarly h)
  cases heditable : c.editable with
  | false => exact .inl (hearly (.readOnly heditable))
  | true =>
    cases hconvert : c.convert text with
    | error fault => exact .inl (hearly (.unconverted hconvert))
    | ok value =>
      cases hbound : e.bound? (e.recorded c value s.request) c with
      | none => exact .inl (hearly (.unresolved hconvert (Engine.unresolved_iff.2 hbound)))
      | some b =>
        rw [Engine.submit_of_converted heditable hconvert, hbound]
        obtain ⟨answers, acts, found, failure, hhooks, hbetween, hperforms, houtcome⟩ :=
          Engine.performs_validateHooked e c b (Engine.interpreted e.env.settings value)
            ⟨s.plugins, e.recorded c value s.request⟩
        refine .inr ⟨value, b, rfl, rfl, hbound,
          ⟨answers, acts, found, failure, hhooks, hbetween, hperforms, houtcome⟩, ?_, ?_, ?_, ?_⟩
        · intro names hnotes
          exact hperforms.journal_rounds hbetween (hhooks ▸ hnotes)
        · intro found hfound
          exact PropertyInfo.violations?_withViolations hfound
        · intro hextractor
          exact Engine.violations?_of_bound hextractor hbound
        · intro types htypes groups
          exact Engine.constrained_ofTypes htypes b _ groups

/-- A hook that notes its runs and always gives the same answer. -/
def Hook.noting (name : String) (agrees : Bool) : Hook where
  before := fun _ _ _ r => (agrees, r.note ("before " ++ name))
  after := fun _ _ _ r => r.note ("after " ++ name)

theorem Hook.notes_noting (name : String) (agrees : Bool) : (noting name agrees).Notes name :=
  ⟨fun _ _ _ _ => rfl, fun _ _ _ _ => rfl⟩

/-- The parts of an engine for a required code, with a reviewer that suppresses every failure. -/
def badgeParts (hooks : List Hook) : EngineParts where
  settings := { reviewer := some "Silent" }
  types := .ofTypes
    [{ name := "Badge", properties := [(PropertyDecl.new "code").onField (.required none)] }]
  reviewers := .ofList [("Silent", ⟨fun _ _ message => (false, message)⟩)]
  hooks

/-- A page with one badge. -/
def badgePage : Request :=
  .new "/edit" (Dict.ofList [("badge", .object (Record.ofType "Badge"))])

/-- The field for its code. -/
def badgeField : Component :=
  { clientId := "form:code", valueBinding := some "#\x7bbadge.code\x7d" }

/-- The first hook refuses, and the second one runs all the same. -/
theorem hooks_balanced_refused :
    let e := (badgeParts [.noting "first" false, .noting "second" true]).engine
    let s := Session.start e badgePage
    (e.submit badgeField "" s).2.request.journal
      = ["before first", "before second", "after first", "after second"] := by
  intro e s
  have hbound : (e.bound? (e.recorded badgeField (.text "") s.request) badgeField).isSome
      = true := by decide +kernel
  rcases hooks_balanced e badgeField "" s with ⟨hearly, -⟩ | ⟨value, b, -, -, -, -, hjournal, -⟩
  · cases hearly with
    | readOnly h => cases h
    | unconverted h => cases h
    | unresolved hconvert h =>
      cases hconvert
      rw [Engine.unresolved_iff.1 h] at hbound
      cases hbound
  · obtain ⟨recorded, hrecorded⟩ := Engine.recordAll_eq (e := e) rfl badgeField value
      ((s.request.setStage badgeField.clientId .rawInput).setStage badgeField.clientId .converted)
    rw [hjournal ["first", "second"]
      (.cons (Hook.notes_noting _ _) (.cons (Hook.notes_noting _ _) .nil)), Engine.recorded,
      hrecorded]
    rfl

-- A failure that is suppressed leaves the submission valid, but the violation is there to be seen.
example :
    let seeing : Hook :=
      { after := fun _ _ info r =>
          r.note (if info.violations?.isSome then "violated" else "sound") }
    let e := (badgeParts [seeing]).engine
    let result := e.submit badgeField "" (.start e badgePage)
    (result.1.isValid, result.2.request.messages.length, result.2.request.journal)
      = (true, 0, ["violated"]) := by
  decide +kernel

end FieldGuard
