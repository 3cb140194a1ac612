import FieldGuard.Proofs.Acceptance
import FieldGuard.Proofs.Objects

/-!
# `FieldGuard.Proofs.BorrowedChecks`: how a join checks what it borrows

A property that is declared as a join borrows the constraints of its targets. What is
declared directly is checked entry by entry: a strategy that fails has no complaint, and the
next entry is checked all the same. A join asks the same strategies in the same order but
stops at the first that fails, and then its own answer is that failure. So the complaints
before it are lost, and the value is accepted.

* `Plugins.checkLent_eq`: borrowed entries are no joins, so they are checked as usual;
* `Plugins.checkBorrowed_eq`: a join answers with all complaints or with the first failure;
* `Plugins.messages_strategyViolations`: entries that are declared directly are violated in
  all complaints about them, whichever strategies fail;
* `join_reports_iff`: a join reports as much as its entries would just when no strategy of
  them fails;
* `join_drops_complaint`: a value that is refused where a constraint is declared, and
  accepted where it is borrowed.
-/

set_option autoImplicit false

namespace FieldGuard

/-! ### Borrowed entries -/

theorem Entry.joinTargets_of_not_join {e : Entry} (h : ∀ targets, e.annotation ≠ .join targets) :
    e.joinTargets = .error (e.unexpected .join) := by
  unfold Entry.joinTargets Entry.join
  split
  · next targets hannotation => exact absurd hannotation (h targets)
  · rfl

namespace Extraction

/-- Extracted entries carry the key of their annotation. -/
theorem key_of_mem_entries {m : TypeModel} {typeName property : String} {binding : Option String}
    {e : Entry} (h : e ∈ entries m typeName property binding) : e.key = e.annotation.key := by
  obtain ⟨declared, -, hannotation⟩ := List.mem_flatMap.1 h
  obtain ⟨a, -, rfl⟩ := List.mem_map.1 hannotation
  cases binding <;> rfl

theorem key_of_mem_extract {env : Environment} {page : Page} {target : Target}
    {info : PropertyInfo} (h : extract env page target = .ok info) {e : Entry}
    (he : e ∈ info.entries) : e.key = e.annotation.key := by
  obtain ⟨d, binding, -, ⟨-, rfl⟩ | ⟨owner, -, -, -, rfl⟩⟩ := extract_eq_ok_iff.1 h
  · cases he
  · exact key_of_mem_entries he

/-- Making targets absolute is about joins only. -/
theorem mem_of_withAbsoluteTargets {entries found : List Entry}
    (h : withAbsoluteTargets entries = .ok found) {e : Entry} (he : e ∈ found)
    (hjoin : e.isJoin = false) : e ∈ entries := by
  induction entries generalizing found with
  | nil =>
    cases h
    cases he
  | cons first rest ih =>
    rw [withAbsoluteTargets] at h
    obtain ⟨absolute, habsolute, h⟩ := ok_of_bind h
    obtain ⟨others, hothers, h⟩ := ok_of_bind h
    cases h
    rcases List.mem_cons.1 he with rfl | he
    · -- A join stays one, so this entry is the first one as it was.
      unfold Entry.withAbsoluteTargets at habsolute
      cases hfirst : first.isJoin with
      | false =>
        rw [hfirst] at habsolute
        cases habsolute
        exact List.mem_cons_self
      | true =>
        rw [hfirst] at habsolute
        obtain ⟨targets, -, htargets⟩ := ok_of_bind habsolute
        have hsame : e.isJoin = first.isJoin := by
          cases htargets
          split <;> rfl
        rw [hsame, hfirst] at hjoin
        cases hjoin
    · exact List.mem_cons_of_mem _ (ih hothers he)

/-- What a join borrows does not borrow in turn. -/
theorem not_join_of_mem_borrowed {env : Environment} {page : Page} {target : String} {e : Entry}
    (h : e ∈ borrowed env page target) (targets : List String) :
    e.annotation ≠ .join targets := by
  unfold borrowed at h
  cases hinfo : extractForJoin env page (.binding target) with
  | error fault => simp [hinfo] at h
  | ok info =>
    rw [hinfo] at h
    obtain ⟨he, hjoin⟩ := List.mem_filter.1 h
    have hjoin : e.isJoin = false := by simpa using hjoin
    unfold extractForJoin at hinfo
    obtain ⟨found, hfound, hinfo⟩ := ok_of_bind hinfo
    obtain ⟨entries, hentries, hinfo⟩ := ok_of_bind hinfo
    cases hinfo
    have hkey := key_of_mem_extract hfound (mem_of_withAbsoluteTargets hentries he hjoin)
    intro hannotation
    rw [Entry.isJoin, hkey, hannotation] at hjoin
    cases hjoin

end Extraction

/-! ### Answers of strategies -/

/-- The complaints of answers. An answer that is a failure has none. -/
def complaintsOf (answers : List (Except Fault (List Complaint))) : List Complaint :=
  answers.flatMap fun
    | .ok complaints => complaints
    | .error _ => []

/-- All complaints of answers, or else the first failure among them. -/
def allOrFailure : List (Except Fault (List Complaint)) → Except Fault (List Complaint)
  | [] => .ok []
  | .error fault :: _ => .error fault
  | .ok complaints :: rest => (allOrFailure rest).map (complaints ++ ·)

theorem allOrFailure_cases (answers : List (Except Fault (List Complaint))) :
    (allOrFailure answers = .ok (complaintsOf answers) ∧ ∀ a ∈ answers, a.isOk = true) ∨
      ∃ fault, allOrFailure answers = .error fault ∧ .error fault ∈ answers := by
  induction answers with
  | nil => exact .inl ⟨rfl, by simp⟩
  | cons first rest ih =>
    cases first with
    | error fault => exact .inr ⟨fault, rfl, List.mem_cons_self⟩
    | ok complaints =>
      obtain ⟨hall, hok⟩ | ⟨fault, hfault, hmem⟩ := ih
      · refine .inl ⟨?_, List.forall_mem_cons.2 ⟨rfl, hok⟩⟩
        rw [allOrFailure, hall]
        rfl
      · refine .inr ⟨fault, ?_, List.mem_cons_of_mem _ hmem⟩
        rw [allOrFailure, hfault]
        rfl

namespace Plugins

variable (env : Environment) (r : Request) (value : Value)

/-- The answer of the strategy for an entry. Without a strategy there is nothing to complain
about. -/
def answer (e : Entry) : StateM Plugins (Except Fault (List Complaint)) := do
  match ← strategyFor e.key with
  | none => pure (.ok [])
  | some s => (check env r s e value).run

/-- The answers for entries, one after the other, whatever they are. -/
def answers : List Entry → StateM Plugins (List (Except Fault (List Complaint)))
  | [] => pure []
  | e :: rest => do
    let first ← answer env r value e
    let others ← answers rest
    pure (first :: others)

variable {env r value}

/-- An entry that is no join is checked as if it were not borrowed. -/
theorem checkLent_eq {e : Entry} (h : ∀ targets, e.annotation ≠ .join targets) (s : Strategy) :
    checkLent env r s e value = check env r s e value := by
  unfold checkLent check checkWith
  cases s.check with
  | own check => rfl
  | join =>
    -- Either join fails before it looks at any target.
    rw [Entry.joinTargets_of_not_join h]
    rfl

theorem run_attempt_bind {α β : Type} (x : Attempt α) (f : α → Attempt β) (p : Plugins) :
    (x >>= f).run p
      = match (x.run p).1 with
        | .ok a => (f a).run (x.run p).2
        | .error fault => (.error fault, (x.run p).2) := by
  show (x.run >>= ExceptT.bindCont f) p = _
  rw [run_bind]
  cases (x.run p).1 <;> rfl

/-- A join answers with all complaints about what it borrows, or with the first failure. -/
theorem checkBorrowed_eq {entries : List Entry}
    (h : ∀ e ∈ entries, ∀ targets, e.annotation ≠ .join targets) (p : Plugins) :
    ((checkBorrowed (checkLent env r) value entries).run p).1
      = allOrFailure (answers env r value entries p).1 := by
  induction entries generalizing p with
  | nil => rfl
  | cons e rest ih =>
    obtain ⟨hfirst, hrest⟩ := List.forall_mem_cons.1 h
    -- After the complaints about the first entry come those of the rest, if that has any answer.
    have hothers : ∀ (complaints : List Complaint) (q : Plugins),
        ((do let others ← checkBorrowed (checkLent env r) value rest
             pure (complaints ++ others) : Attempt (List Complaint)).run q).1
          = allOrFailure (.ok complaints :: (answers env r value rest q).1) := by
      intro complaints q
      rw [run_attempt_bind, allOrFailure, ← ih hrest q]
      cases ((checkBorrowed (checkLent env r) value rest).run q).1 <;> rfl
    have hlookup : (liftM (strategyFor e.key) : Attempt (Option Strategy)).run p
        = (.ok (strategyFor e.key p).1, (strategyFor e.key p).2) := rfl
    rw [checkBorrowed, run_attempt_bind, hlookup, answers, answer, run_bind, run_bind, run_bind]
    dsimp only
    cases (strategyFor e.key p).1 with
    | none => exact hothers [] _
    | some s =>
      dsimp only
      rw [checkLent_eq hfirst, run_attempt_bind]
      cases ((check env r s e value).run (strategyFor e.key p).2).1 with
      | ok complaints => exact hothers complaints _
      | error fault => rfl

/-- The violations of one entry are the complaints about it, none if its strategy fails. -/
theorem entryViolations_eq (b : Engine.Bound) (e : Entry) (p : Plugins) :
    Engine.entryViolations env r b value e p
      = ((complaintsOf [(answer env r value e p).1]).map (Engine.violationOf b e value),
          (answer env r value e p).2) := by
  rw [Engine.entryViolations, answer, run_bind, run_bind]
  cases (strategyFor e.key p).1 with
  | none => rfl
  | some s =>
    simp only [run_bind]
    have hrun : (check env r s e value).run (strategyFor e.key p).2
        = (((check env r s e value).run (strategyFor e.key p).2).1,
            ((check env r s e value).run (strategyFor e.key p).2).2) := rfl
    rw [hrun]
    cases ((check env r s e value).run (strategyFor e.key p).2).1 with
    | ok complaints =>
      show (complaints.map _, _) = (([complaints].flatMap id).map _, _)
      simp
    | error fault => rfl

/-- Entries that are declared directly are violated in all complaints about them. -/
theorem messages_strategyViolations (b : Engine.Bound) (entries : List Entry) (p : Plugins) :
    (Engine.strategyViolations env r b value entries p).1.map (·.message)
      = (complaintsOf (answers env r value entries p).1).map (·.text) := by
  induction entries generalizing p with
  | nil => rfl
  | cons e rest ih =>
    have hanswers : (answers env r value (e :: rest) p).1
        = (answer env r value e p).1
          :: (answers env r value rest (answer env r value e p).2).1 := rfl
    rw [Engine.strategyViolations_cons, entryViolations_eq, hanswers]
    simp only [List.map_append, ih, complaintsOf, List.flatMap_cons, List.flatMap_nil,
      List.append_nil, List.map_map]
    rfl

end Plugins

/-- What a join reports are the complaints about the entries it borrows, target by target, just
when the strategies of all of them have an answer. If one has none, the join fails with it and
reports nothing. Declared directly, the same entries are violated in all their complaints in
either case. -/
theorem join_reports_iff (env : Environment) (r : Request) {s : Strategy} (hs : s.check = .join)
    {e : Entry} {declared : List String} (he : e.annotation = .join declared) (value : Value)
    (p : Plugins) :
    let borrowed := (declared.filterMap e.absoluteTarget?).flatMap (Extraction.borrowed env r.page)
    let answers := (Plugins.answers env r value borrowed p).1
    let reported := ((Plugins.check env r s e value).run p).1
    (reported = .ok (complaintsOf answers) ↔ ∀ a ∈ answers, a.isOk = true) ∧
    ((∃ a ∈ answers, a.isOk = false) → ∃ fault, reported = .error fault ∧ .error fault ∈ answers) ∧
    ∀ b, (Engine.strategyViolations env r b value borrowed p).1.map (·.message)
      = (complaintsOf answers).map (·.text) := by
  intro borrowed answers reported
  have hborrowed : ∀ e' ∈ borrowed, ∀ targets, e'.annotation ≠ .join targets := by
    intro e' he'
    obtain ⟨target, -, hmem⟩ := List.mem_flatMap.1 he'
    exact Extraction.not_join_of_mem_borrowed hmem
  have htargets : e.joinTargets = .ok (declared.filterMap e.absoluteTarget?) := by
    unfold Entry.joinTargets Entry.join
    rw [he]
    rfl
  have hreported : reported = allOrFailure answers := by
    rw [← Plugins.checkBorrowed_eq hborrowed p]
    show ((Plugins.checkWith _ env r s e value).run p).1 = _
    unfold Plugins.checkWith
    rw [hs, htargets]
    rfl
  have hdirect : ∀ b, (Engine.strategyViolations env r b value borrowed p).1.map (·.message)
      = (complaintsOf answers).map (·.text) :=
    fun b => Plugins.messages_strategyViolations b borrowed p
  obtain ⟨hall, hok⟩ | ⟨fault, hfault, hmem⟩ := allOrFailure_cases answers
  · refine ⟨⟨fun _ => hok, fun _ => hreported.trans hall⟩, ?_, hdirect⟩
    rintro ⟨a, ha, hfails⟩
    rw [hok a ha] at hfails
    cases hfails
  · have hfails := hreported.trans hfault
    refine ⟨⟨fun hall => ?_, fun hok => ?_⟩, fun _ => ⟨fault, hfails, hmem⟩, hdirect⟩
    · rw [hreported, hfault] at hall
      cases hall
    · have hanswered := hok _ hmem
      cases hanswered

/-! ### A reference that borrows from a code -/

/-- The code of an invoice has at least three characters and matches an expression. The
reference borrows both constraints. -/
def invoiceParts (expression : String) : EngineParts where
  types := .ofTypes
    [{ name := "Invoice", properties :=
        [((PropertyDecl.new "code").onField (.length { minimum := 3 })).onField
            (.pattern { value := [expression] }),
          (PropertyDecl.new "reference").onField (.join ["code"])] }]

/-- A page with one invoice. -/
def invoicePage : Request :=
  .new "/edit.xhtml" (Dict.ofList [("invoice", .object (Record.ofType "Invoice"))])

/-- The entry of the join. -/
def referenceEntry : Entry :=
  ({ Entry.ofAnnotation (.join ["code"]) with property := some "reference" }).withBinding
    (some "#\x7binvoice.reference\x7d")

/-- A field for a property of the invoice. -/
def invoiceField (property : String) : Component where
  clientId := "form:" ++ property
  valueBinding := some ("#\x7binvoice." ++ property ++ "\x7d")

/-- Both constraints of the code can be checked, so the reference reports two complaints. -/
theorem join_reports_iff_reference :
    let e := (invoiceParts "[A-Z]+").engine
    let r := invoicePage
    let s : Strategy := ⟨Strategy.joinName, .join⟩
    let borrowed := (["code"].filterMap referenceEntry.absoluteTarget?).flatMap
      (Extraction.borrowed e.env r.page)
    let answers := (Plugins.answers e.env r (.text "x") borrowed e.plugins).1
    s.check = .join ∧ referenceEntry.annotation = .join ["code"] ∧
    answers.length = 2 ∧ (complaintsOf answers).length = 2 ∧
    ((Plugins.check e.env r s referenceEntry (.text "x")).run e.plugins).1
      = .ok (complaintsOf answers) := by
  intro e r s borrowed answers
  have hok : answers.all (fun a => a.isOk) = true := by decide +kernel
  obtain ⟨hiff, -⟩ := join_reports_iff e.env r (s := s) rfl (e := referenceEntry) rfl
    (.text "x") e.plugins
  exact ⟨rfl, rfl, by decide +kernel, by decide +kernel, hiff.2 (List.all_eq_true.1 hok)⟩

/-- The expression does not compile. The code is still refused because it is too short; the
reference is accepted. -/
theorem join_drops_complaint :
    let e := (invoiceParts "[A-Z").engine
    let r := invoicePage
    let s : Strategy := ⟨Strategy.joinName, .join⟩
    let borrowed := (["code"].filterMap referenceEntry.absoluteTarget?).flatMap
      (Extraction.borrowed e.env r.page)
    let answers := (Plugins.answers e.env r (.text "x") borrowed e.plugins).1
    (complaintsOf answers).map (·.text) = ["Value must be at least 3 characters"] ∧
    ((Plugins.check e.env r s referenceEntry (.text "x")).run e.plugins).1.isOk = false ∧
    (e.submit (invoiceField "code") "x" (Session.start e invoicePage)).1.isValid = false ∧
    (e.submit (invoiceField "reference") "x" (Session.start e invoicePage)).1.isValid = true := by
  decide +kernel

end FieldGuard
