import FieldGuard.Proofs.BorrowedChecks

/-!
# `FieldGuard.Proofs.Nesting`: joins end, whatever they borrow from each other

Properties may borrow from each other in circles, and overrides may give any entry the strategy or
the transformer of joins. A check is open then: a strategy asks the strategies of the entries that
it borrows, and these might ask for more. `Nesting.check` and `Nesting.convert` leave the recursion
open. They go down to a given depth and have no result below it, and they keep a record of the
targets that they extract.

Only an entry of a join has targets, and no entry of a join is ever borrowed. So whichever plug-in
is asked about a borrowed entry, it extracts nothing, and the second level is the last one. The
library's own checks and conversions, which are written for these two levels, do what the open ones
do at any greater depth.

* `Nesting.Runs`, `Nesting.Extracts`: a computation has a result, and extracts certain targets;
* `Nesting.extracts_check_of_not_join`, `Nesting.extracts_convert_of_not_join`: where an entry has no
  targets, one level is enough;
* `Nesting.extracts_checkTargets`, `Nesting.runs_mergeTargets`: the loops of a join over its targets;
* `joins_end`: two levels are enough for every entry.
-/

set_option autoImplicit false

namespace FieldGuard

namespace Nesting

/-! ### Open recursion -/

/-- How far the look-ups have brought the registries, and which targets have been extracted. -/
structure Progress where
  plugins : Plugins
  extracted : List String := []

/-- A computation over nested joins. It has no result if they are nested too deeply. -/
abbrev Nested (α : Type) := StateT Progress Option α

/-- A computation over nested joins that may fail. -/
abbrev NestedAttempt (α : Type) := ExceptT Fault (StateT Progress Option) α

/-- There is no result here. -/
def tooDeep {α : Type} : Nested α :=
  fun _ => none

/-- A look-up among the plug-ins. -/
def lookup {α : Type} (find : StateM Plugins α) : Nested α :=
  fun s => some ((find s.plugins).1, { s with plugins := (find s.plugins).2 })

/-- The result of a computation that looks nothing up. -/
def result {α : Type} (r : Except Fault α) : NestedAttempt α :=
  ExceptT.mk (pure r)

section

variable (env : Environment) (r : Request)

/-- Extracts a target of a join. -/
def borrow (target : String) : Nested (List Entry) :=
  fun s => some (Extraction.borrowed env r.page target,
    { s with extracted := s.extracted ++ [target] })

/-- Checks a value against entries; a failing check ends it. -/
def checkEntries (checkOne : Strategy → Entry → Value → NestedAttempt (List Complaint))
    (value : Value) : List Entry → NestedAttempt (List Complaint)
  | [] => pure []
  | e :: rest => do
    let found ←
      match ← liftM (lookup (Plugins.strategyFor e.key)) with
      | none => pure []
      | some s => checkOne s e value
    let others ← checkEntries checkOne value rest
    pure (found ++ others)

/-- Checks a value against the entries of targets, one target after the other. -/
def checkTargets (checkOne : Strategy → Entry → Value → NestedAttempt (List Complaint))
    (value : Value) : List String → NestedAttempt (List Complaint)
  | [] => pure []
  | target :: rest => do
    let entries ← liftM (borrow env r target)
    let found ← checkEntries checkOne value entries
    let others ← checkTargets checkOne value rest
    pure (found ++ others)

/-- Checks a value by a strategy, with at most so many strategies inside each other. -/
def check : Nat → Strategy → Entry → Value → NestedAttempt (List Complaint)
  | 0, _, _, _ => ExceptT.mk tooDeep
  | depth + 1, s, e, value =>
    match s.check with
    | .own check => result (check env r e value)
    | .join => do
      let targets ← result e.joinTargets
      checkTargets env r (check depth) value targets

/-- Merges in the metadata of entries, as far as they have any. -/
def mergeEntries (transformOne : Strategy → Entry → Nested (Option Metadata)) :
    Metadata → List Entry → Nested Metadata
  | metadata, [] => pure metadata
  | metadata, e :: rest => do
    let found ←
      match ← lookup (Plugins.strategyFor e.key) with
      | none => pure none
      | some s => transformOne s e
    mergeEntries transformOne ((found.map metadata.merge).getD metadata) rest

/-- Merges in the metadata of the entries of targets, one target after the other. -/
def mergeTargets (transformOne : Strategy → Entry → Nested (Option Metadata)) :
    Metadata → List String → Nested Metadata
  | metadata, [] => pure metadata
  | metadata, target :: rest => do
    let entries ← borrow env r target
    let merged ← mergeEntries transformOne metadata entries
    mergeTargets transformOne merged rest

/-- The metadata of an entry by the transformer for its strategy, if there is one that works. -/
def transformBy (convertOne : Transformer → Entry → NestedAttempt Metadata) (s : Strategy)
    (e : Entry) : Nested (Option Metadata) := do
  match ← lookup (Plugins.transformerFor s) with
  | none => pure none
  | some t =>
    match ← (convertOne t e).run with
    | .ok metadata => pure (some metadata)
    | .error _ => pure none

/-- The metadata of an entry by a transformer, with at most so many transformers inside each
other. -/
def convert : Nat → Transformer → Entry → NestedAttempt Metadata
  | 0, _, _ => ExceptT.mk tooDeep
  | depth + 1, t, e =>
    match t.conversion with
    | .own convert => result (convert env r e)
    | .join => do
      let targets ← result e.joinTargets
      liftM (mergeTargets env r (transformBy (convert depth)) ∅ targets)

end

/-! ### Results -/

/-- The computation has a result, the one of the other computation. It extracts the targets. -/
def Runs {α : Type} (targets : List String) (x : Nested α) (y : StateM Plugins α) : Prop :=
  ∀ s, x s = some ((y s.plugins).1, ⟨(y s.plugins).2, s.extracted ++ targets⟩)

/-- The computation has a result, the one of the other computation, and extracts nothing. -/
abbrev Quiet {α : Type} (x : Nested α) (y : StateM Plugins α) : Prop :=
  Runs [] x y

/-- The computation has a result, the one of the other computation. It extracts the targets in their
order, all of them unless it fails. -/
def Extracts {α : Type} (targets : List String) (x : NestedAttempt α) (y : Plugins.Attempt α) :
    Prop :=
  ∀ s, ∃ made, made <+: targets ∧ ((y.run s.plugins).1.isOk = true → made = targets) ∧
    x.run s = some ((y.run s.plugins).1, ⟨(y.run s.plugins).2, s.extracted ++ made⟩)

variable {α β : Type}

theorem quiet_pure (a : α) : Quiet (pure a) (pure a) := by
  intro s
  rw [List.append_nil]
  rfl

theorem quiet_lookup (find : StateM Plugins α) : Quiet (lookup find) find := by
  intro s
  rw [List.append_nil]
  rfl

/-- What one computation extracts is followed by what the next one extracts. -/
theorem Runs.bind {targets more : List String} {x : Nested α} {y : StateM Plugins α}
    {f : α → Nested β} {g : α → StateM Plugins β} (hx : Runs targets x y)
    (hf : ∀ a, Runs more (f a) (g a)) : Runs (targets ++ more) (x >>= f) (y >>= g) := by
  intro s
  show (x s).bind (fun r => f r.1 r.2) = _
  rw [hx s, Option.bind_some, hf, run_bind, List.append_assoc]

/-- After an attempt that fails nothing more is extracted. -/
theorem Extracts.bind {targets more : List String} {x : NestedAttempt α} {y : Plugins.Attempt α}
    {f : α → NestedAttempt β} {g : α → Plugins.Attempt β} (hx : Extracts targets x y)
    (hf : ∀ a, Extracts more (f a) (g a)) : Extracts (targets ++ more) (x >>= f) (y >>= g) := by
  intro s
  obtain ⟨made, hmade, hall, hrun⟩ := hx s
  have hbind : (x >>= f).run s = (x.run s).bind fun r => ExceptT.bindCont f r.1 r.2 := rfl
  rw [Plugins.run_attempt_bind, hbind, hrun, Option.bind_some]
  cases hanswer : (y.run s.plugins).1 with
  | error fault =>
    refine ⟨made, hmade.trans (List.prefix_append _ _), fun hok => ?_, rfl⟩
    cases hok
  | ok a =>
    obtain rfl : made = targets := hall (by rw [hanswer]; rfl)
    obtain ⟨others, hothers, hall', hrun'⟩ :=
      hf a ⟨(y.run s.plugins).2, s.extracted ++ made⟩
    refine ⟨made ++ others, (List.prefix_append_right_inj made).2 hothers,
      fun hok => congrArg (made ++ ·) (hall' hok), ?_⟩
    rw [← List.append_assoc]
    exact hrun'

theorem Extracts.of_runs {targets : List String} {x : NestedAttempt α} {y : Plugins.Attempt α}
    (h : Runs targets x.run y.run) : Extracts targets x y :=
  fun s => ⟨targets, List.prefix_rfl, fun _ => rfl, h s⟩

/-- Where there is nothing to extract it does not matter whether the attempt fails. -/
theorem Extracts.quiet {x : NestedAttempt α} {y : Plugins.Attempt α} (h : Extracts [] x y) :
    Quiet x.run y.run := by
  intro s
  obtain ⟨made, hmade, -, hrun⟩ := h s
  rw [hrun, List.prefix_nil.1 hmade]

theorem extracts_pure (a : α) : Extracts [] (pure a) (pure a) :=
  .of_runs (quiet_pure (Except.ok (ε := Fault) a))

theorem extracts_result (r : Except Fault α) : Extracts [] (result r) (ExceptT.mk (pure r)) :=
  .of_runs (quiet_pure r)

theorem extracts_liftM {targets : List String} {x : Nested α} {y : StateM Plugins α}
    (h : Runs targets x y) : Extracts targets (liftM x) (liftM y) := by
  have hdone : Runs (targets ++ []) (x >>= fun a => pure (Except.ok (ε := Fault) a))
      (y >>= fun a => pure (Except.ok (ε := Fault) a)) := h.bind fun a => quiet_pure _
  rw [List.append_nil] at hdone
  exact .of_runs hdone

/-! ### Entries that have no targets -/

variable {env : Environment} {r : Request} {e : Entry} {value : Value}

/-- Whichever strategy checks an entry that is no join, it extracts nothing. It does not matter how
borrowed entries would be checked. -/
theorem extracts_check_of_not_join (h : ∀ targets, e.annotation ≠ .join targets) (depth : Nat)
    (plainOne : Strategy → Entry → Value → Plugins.Attempt (List Complaint)) (s : Strategy) :
    Extracts [] (check env r (depth + 1) s e value)
      (Plugins.checkWith plainOne env r s e value) := by
  unfold check Plugins.checkWith
  cases s.check with
  | own check => exact extracts_result _
  | join =>
    -- The join fails before it comes to a target.
    rw [Entry.joinTargets_of_not_join h]
    exact extracts_result (.error _)

theorem extracts_convert_of_not_join (h : ∀ targets, e.annotation ≠ .join targets) (depth : Nat)
    (plainOne : Strategy → Entry → StateM Plugins (Option Metadata)) (t : Transformer) :
    Extracts [] (convert env r (depth + 1) t e)
      (Plugins.convertWith plainOne env r t e) := by
  unfold convert Plugins.convertWith
  cases t.conversion with
  | own convert => exact extracts_result _
  | join =>
    rw [Entry.joinTargets_of_not_join h]
    exact extracts_result (.error _)

/-! ### Entries that are borrowed -/

/-- Checking entries extracts nothing if checking each of them does not. -/
theorem extracts_checkEntries
    {checkOne : Strategy → Entry → Value → NestedAttempt (List Complaint)}
    {plainOne : Strategy → Entry → Value → Plugins.Attempt (List Complaint)} {entries : List Entry}
    (hone : ∀ e ∈ entries, ∀ s, Extracts [] (checkOne s e value) (plainOne s e value)) :
    Extracts [] (checkEntries checkOne value entries)
      (Plugins.checkBorrowed plainOne value entries) := by
  induction entries with
  | nil => exact extracts_pure _
  | cons e rest ih =>
    obtain ⟨hfirst, hrest⟩ := List.forall_mem_cons.1 hone
    have hothers : ∀ found : List Complaint,
        Extracts []
          (do let others ← checkEntries checkOne value rest
              pure (found ++ others))
          (do let others ← Plugins.checkBorrowed plainOne value rest
              pure (found ++ others)) :=
      fun found => (ih hrest).bind fun _ => extracts_pure _
    rw [checkEntries, Plugins.checkBorrowed]
    refine (extracts_liftM (quiet_lookup _)).bind fun found => ?_
    cases found with
    | none => exact hothers []
    | some s => exact (hfirst s).bind hothers

theorem quiet_mergeEntries {transformOne : Strategy → Entry → Nested (Option Metadata)}
    {plainOne : Strategy → Entry → StateM Plugins (Option Metadata)} {entries : List Entry}
    (hone : ∀ e ∈ entries, ∀ s, Quiet (transformOne s e) (plainOne s e)) (metadata : Metadata) :
    Quiet (mergeEntries transformOne metadata entries)
      (Plugins.mergeEntries plainOne metadata entries) := by
  induction entries generalizing metadata with
  | nil => exact quiet_pure _
  | cons e rest ih =>
    obtain ⟨hfirst, hrest⟩ := List.forall_mem_cons.1 hone
    rw [mergeEntries, Plugins.mergeEntries]
    refine (quiet_lookup _).bind fun found => ?_
    cases found with
    | none => exact ih hrest metadata
    | some s => exact (hfirst s).bind fun _ => ih hrest _

theorem quiet_transformBy {convertOne : Transformer → Entry → NestedAttempt Metadata}
    {plainOne : Strategy → Entry → StateM Plugins (Option Metadata)}
    (h : ∀ t, Extracts [] (convertOne t e) (Plugins.convertWith plainOne env r t e))
    (s : Strategy) :
    Quiet (transformBy convertOne s e) (Plugins.transformWith plainOne env r s e) := by
  rw [transformBy, Plugins.transformWith]
  refine (quiet_lookup _).bind fun found => ?_
  cases found with
  | none => exact quiet_pure _
  | some t =>
    refine (h t).quiet.bind fun converted => ?_
    cases converted with
    | ok metadata => exact quiet_pure _
    | error fault => exact quiet_pure _

/-! ### Targets of a join -/

/-- After a target comes what is done with its entries. -/
theorem Runs.after_borrow {more : List String} {target : String} {f : List Entry → Nested α}
    {y : StateM Plugins α} (h : Runs more (f (Extraction.borrowed env r.page target)) y) :
    Runs (target :: more) (borrow env r target >>= f) y := by
  intro s
  show f (Extraction.borrowed env r.page target) ⟨s.plugins, s.extracted ++ [target]⟩ = _
  rw [h, List.append_assoc]
  rfl

theorem Extracts.after_borrow {more : List String} {target : String}
    {f : List Entry → NestedAttempt α} {y : Plugins.Attempt α}
    (h : Extracts more (f (Extraction.borrowed env r.page target)) y) :
    Extracts (target :: more) (liftM (borrow env r target) >>= f) y := by
  intro s
  obtain ⟨made, hmade, hall, hrun⟩ := h ⟨s.plugins, s.extracted ++ [target]⟩
  refine ⟨target :: made, (List.prefix_cons_inj target).2 hmade,
    fun hok => congrArg (target :: ·) (hall hok), ?_⟩
  rw [List.append_cons]
  exact hrun

/-- Entries are checked as a whole as they are in two parts. -/
theorem checkBorrowed_append
    (plainOne : Strategy → Entry → Value → Plugins.Attempt (List Complaint))
    (entries more : List Entry) :
    Plugins.checkBorrowed plainOne value (entries ++ more) = (do
      let found ← Plugins.checkBorrowed plainOne value entries
      let others ← Plugins.checkBorrowed plainOne value more
      pure (found ++ others)) := by
  induction entries with
  | nil => simp [Plugins.checkBorrowed]
  | cons e rest ih =>
    rw [List.cons_append, Plugins.checkBorrowed, Plugins.checkBorrowed, bind_assoc, ih]
    refine bind_congr fun found => ?_
    cases found <;> simp only [bind_assoc, pure_bind, List.nil_append, List.append_assoc]

theorem mergeEntries_append (plainOne : Strategy → Entry → StateM Plugins (Option Metadata))
    (metadata : Metadata) (entries more : List Entry) :
    Plugins.mergeEntries plainOne metadata (entries ++ more) = (do
      let merged ← Plugins.mergeEntries plainOne metadata entries
      Plugins.mergeEntries plainOne merged more) := by
  induction entries generalizing metadata with
  | nil => rfl
  | cons e rest ih =>
    rw [List.cons_append, Plugins.mergeEntries, Plugins.mergeEntries, bind_assoc]
    refine bind_congr fun found => ?_
    cases found <;> simp [ih, bind_assoc]

/-- The targets are extracted one after the other, up to the first one of which an entry fails. -/
theorem extracts_checkTargets
    {checkOne : Strategy → Entry → Value → NestedAttempt (List Complaint)}
    {plainOne : Strategy → Entry → Value → Plugins.Attempt (List Complaint)}
    (hone : ∀ target, ∀ lent ∈ Extraction.borrowed env r.page target, ∀ s,
      Extracts [] (checkOne s lent value) (plainOne s lent value)) (targets : List String) :
    Extracts targets (checkTargets env r checkOne value targets)
      (Plugins.checkBorrowed plainOne value
        (targets.flatMap (Extraction.borrowed env r.page))) := by
  induction targets with
  | nil => exact extracts_pure _
  | cons target rest ih =>
    rw [checkTargets, List.flatMap_cons, checkBorrowed_append]
    refine Extracts.after_borrow ?_
    have hrest : ∀ found : List Complaint,
        Extracts (rest ++ [])
          (do let others ← checkTargets env r checkOne value rest
              pure (found ++ others))
          (do let others ← Plugins.checkBorrowed plainOne value
                (rest.flatMap (Extraction.borrowed env r.page))
              pure (found ++ others)) :=
      fun found => ih.bind fun _ => extracts_pure _
    rw [List.append_nil] at hrest
    exact (extracts_checkEntries (hone target)).bind hrest

/-- All targets are extracted, one after the other. -/
theorem runs_mergeTargets {transformOne : Strategy → Entry → Nested (Option Metadata)}
    {plainOne : Strategy → Entry → StateM Plugins (Option Metadata)}
    (hone : ∀ target, ∀ lent ∈ Extraction.borrowed env r.page target, ∀ s,
      Quiet (transformOne s lent) (plainOne s lent)) (metadata : Metadata)
    (targets : List String) :
    Runs targets (mergeTargets env r transformOne metadata targets)
      (Plugins.mergeEntries plainOne metadata
        (targets.flatMap (Extraction.borrowed env r.page))) := by
  induction targets generalizing metadata with
  | nil => exact quiet_pure _
  | cons target rest ih =>
    rw [mergeTargets, List.flatMap_cons, mergeEntries_append]
    exact Runs.after_borrow ((quiet_mergeEntries (hone target) metadata).bind ih)

/-! ### Two levels -/

/-- The targets of an entry, none if it is no join. -/
def targetsOf (e : Entry) : List String :=
  match e.joinTargets with
  | .ok targets => targets
  | .error _ => []

/-- The targets that a strategy extracts for an entry. -/
def checkedTargets (s : Strategy) (e : Entry) : List String :=
  match s.check with
  | .own _ => []
  | .join => targetsOf e

/-- The targets that a transformer extracts for an entry. -/
def convertedTargets (t : Transformer) (e : Entry) : List String :=
  match t.conversion with
  | .own _ => []
  | .join => targetsOf e

theorem extracts_check (depth : Nat) (s : Strategy) (e : Entry) (value : Value) :
    Extracts (checkedTargets s e) (check env r (depth + 2) s e value)
      (Plugins.check env r s e value) := by
  unfold check Plugins.check Plugins.checkWith checkedTargets targetsOf
  cases s.check with
  | own check => exact extracts_result _
  | join =>
    cases htargets : e.joinTargets with
    | error fault => exact extracts_result (.error fault)
    | ok targets =>
      refine extracts_checkTargets (fun target lent hlent s => ?_) targets
      exact extracts_check_of_not_join (Extraction.not_join_of_mem_borrowed hlent) _ _ _

theorem extracts_convert (depth : Nat) (t : Transformer) (e : Entry) :
    Extracts (convertedTargets t e) (convert env r (depth + 2) t e)
      (Plugins.convert env r t e) := by
  unfold convert Plugins.convert Plugins.convertWith convertedTargets targetsOf
  cases t.conversion with
  | own convert => exact extracts_result _
  | join =>
    cases htargets : e.joinTargets with
    | error fault => exact extracts_result (.error fault)
    | ok targets =>
      refine extracts_liftM (runs_mergeTargets (fun target lent hlent s => ?_) ∅ targets)
      refine quiet_transformBy (fun t => ?_) s
      exact extracts_convert_of_not_join (Extraction.not_join_of_mem_borrowed hlent) _ _ _

end Nesting

open Nesting

/-- Checks and conversions end, whatever borrows from what, and whichever plug-ins the look-ups
find. Two levels are always enough, and give the results of the library's own definitions:

* a strategy extracts the targets of the entry that it checks, in their order, all of them unless it
  fails, and a transformer those of the entry that it converts;
* whatever is asked about an entry that a join has borrowed, nothing more is extracted, and one
  level is enough. -/
theorem joins_end (env : Environment) (r : Request) :
    (∀ depth s e value, Extracts (checkedTargets s e) (Nesting.check env r (depth + 2) s e value)
      (Plugins.check env r s e value)) ∧
    (∀ depth t e, Extracts (convertedTargets t e) (Nesting.convert env r (depth + 2) t e)
      (Plugins.convert env r t e)) ∧
    ∀ target, ∀ lent ∈ Extraction.borrowed env r.page target, ∀ depth,
      (∀ s value, Extracts [] (Nesting.check env r (depth + 1) s lent value)
        (Plugins.check env r s lent value)) ∧
      ∀ t, Extracts [] (Nesting.convert env r (depth + 1) t lent)
        (Plugins.convert env r t lent) := by
  refine ⟨extracts_check, extracts_convert, fun target lent hlent depth => ?_⟩
  have hlent := Extraction.not_join_of_mem_borrowed hlent
  exact ⟨fun s _ => extracts_check_of_not_join hlent depth _ s,
    fun t => extracts_convert_of_not_join hlent depth _ t⟩

/-! ### Names that borrow from each other -/

open Annotation in
/-- The names of a pair borrow from each other. The length of the second one is checked by the
strategy of joins, too. -/
def circleParts : EngineParts where
  settings := { strategies := Dict.ofList [(Kind.length.key, Strategy.joinName)] }
  types := .ofTypes
    [{ name := "Pair", properties :=
        [(PropertyDecl.new "first").onField (.join ["second"]),
          ((PropertyDecl.new "second").onField (.length { minimum := 3 })).onField
            (.join ["first"])] }]

/-- A page with one pair. -/
def circlePage : Request :=
  .new "/edit.xhtml" (Dict.ofList [("pair", .object (Record.ofType "Pair"))])

/-- The entry of the join on the first name. -/
def circleEntry : Entry :=
  (Entry.ofAnnotation (.join ["second"])).withBinding (some "#{pair.first}")

/-- The length comes to the strategy of joins, so that one level is not enough. It extracts nothing
in turn, so that two levels are. -/
theorem joins_end_circle :
    let env := circleParts.engine.env
    let plugins := circleParts.engine.plugins
    let s : Strategy := ⟨Strategy.joinName, .join⟩
    let lent := Extraction.borrowed env circlePage.page "#{pair.second}"
    lent.map (fun e => (Plugins.strategyFor e.key plugins).1.map (·.name))
      = [some Strategy.joinName] ∧
    ((Nesting.check env circlePage 1 s circleEntry (.text "x")).run ⟨plugins, []⟩).isNone = true ∧
    (∀ depth, Extracts ["#{pair.second}"]
      (Nesting.check env circlePage (depth + 2) s circleEntry (.text "x"))
      (Plugins.check env circlePage s circleEntry (.text "x"))) ∧
    ∀ e ∈ lent, ∀ depth, Extracts [] (Nesting.check env circlePage (depth + 1) s e (.text "x"))
      (Plugins.check env circlePage s e (.text "x")) := by
  intro env plugins s lent
  obtain ⟨hcheck, -, hlent⟩ := joins_end env circlePage
  have htargets : checkedTargets s circleEntry = ["#{pair.second}"] := by decide +kernel
  refine ⟨by decide +kernel, by decide +kernel, fun depth => ?_, fun e he depth => ?_⟩
  · rw [← htargets]
    exact hcheck depth s circleEntry (.text "x")
  · exact (hlent _ e he depth).1 s (.text "x")

end FieldGuard
