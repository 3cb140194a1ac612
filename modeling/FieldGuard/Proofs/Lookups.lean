import FieldGuard.Proofs.Keeps
import FieldGuard.Proofs.Registry

/-!
# `FieldGuard.Proofs.Lookups`: what look-ups have kept does not show in their answers

The registries of an engine change with every look-up. As long as they have come from
steady registries by look-ups alone, checks and reports do not depend on how far they have
come: whatever was looked up before, for whichever component, the answers are the same.

* `Plugins.Offshoot`: registries that have come from others by look-ups;
* `Plugins.Steady.stable`: look-ups lead from offshoots to offshoots;
* `Plugins.Steady.settled_strategyViolations`, `Plugins.Steady.settled_report`: what checks
  find and what is reported is the same in all offshoots.
-/

set_option autoImplicit false

namespace FieldGuard.Plugins

/-- Registries that have come from the base ones by look-ups. Those of transformers do not
matter for validation. -/
structure Offshoot (base p : Plugins) : Prop where
  strategies : Registry.Offshoot id base.strategies p.strategies
  reviewers : Registry.Offshoot (fun i => i.componentType) base.reviewers p.reviewers

/-- Registries whose plug-ins do not depend on what was made before them. -/
structure Steady (base : Plugins) : Prop where
  strategies : base.strategies.Steady
  reviewers : base.reviewers.Steady
  keyed : base.reviewers.KeyedBy fun i => i.componentType

theorem keyedBy_id {α : Type} (r : Registry String α) : r.KeyedBy id := by
  intro a b h
  rw [show a = b from h]

/-! ### Single look-ups -/

/-- Look-ups of any kind keep the reviewers an offshoot of steady ones. -/
theorem stable_reviewers {base : Registry Identity Reviewer} (hsteady : base.Steady)
    (hkeyed : base.KeyedBy fun i => i.componentType) :
    Stable fun p => Registry.Offshoot (fun i => i.componentType) base p.reviewers where
  strategyFor _ _ hp := hp
  transformerFor _ _ hp := hp
  reviewerFor i _ hp := (hp.resolve hsteady hkeyed i).2

variable {base : Plugins}

namespace Steady

/-- Look-ups lead from offshoots to offshoots. -/
theorem stable (h : base.Steady) : Stable (Offshoot base) where
  -- A look-up of one kind leaves the registries of the other kinds alone.
  strategyFor key _ hp :=
    ⟨(hp.strategies.resolve h.strategies (keyedBy_id _) key).2, hp.reviewers⟩
  transformerFor _ _ hp := ⟨hp.strategies, hp.reviewers⟩
  reviewerFor i _ hp := ⟨hp.strategies, (hp.reviewers.resolve h.reviewers h.keyed i).2⟩

theorem settled_strategyFor (h : base.Steady) (key : String) :
    Settled (Offshoot base) (strategyFor key) :=
  Settled.of_answer fun _ hp => (hp.strategies.resolve h.strategies (keyedBy_id _) key).1

theorem settled_reviewerFor (h : base.Steady) (i : Identity) :
    Settled (Offshoot base) (reviewerFor i) :=
  Settled.of_answer fun _ hp => (hp.reviewers.resolve h.reviewers h.keyed i).1

end Steady

/-! ### Checks -/

theorem settled_attempt_bind {I : Plugins → Prop} {α β : Type} {x : Attempt α}
    {f : α → Attempt β} (hkeeps : Keeps I x.run) (hx : Settled I x.run)
    (hf : ∀ a, Settled I (f a).run) : Settled I (x >>= f).run := by
  show Settled I (x.run >>= ExceptT.bindCont f)
  refine hx.bind hkeeps fun result => ?_
  cases result with
  | ok a => exact hf a
  | error fault => exact Settled.pure _

/-- A way to check entries that keeps offshoots and has one answer in all of them. -/
structure Even (base : Plugins)
    (checkOne : Strategy → Entry → Value → Attempt (List Complaint)) : Prop where
  keeps : ∀ s e v, Keeps (Offshoot base) (checkOne s e v).run
  settled : ∀ s e v, Settled (Offshoot base) (checkOne s e v).run

namespace Steady

theorem settled_checkBorrowed (h : base.Steady)
    {checkOne : Strategy → Entry → Value → Attempt (List Complaint)} (hone : Even base checkOne)
    (value : Value) (entries : List Entry) :
    Settled (Offshoot base) (checkBorrowed checkOne value entries).run := by
  induction entries with
  | nil => exact Settled.pure _
  | cons e rest ih =>
    have hkeeps := h.stable.checkBorrowed hone.keeps value rest
    have hrest : ∀ found : List Complaint, Settled (Offshoot base)
        (do let others ← checkBorrowed checkOne value rest
            pure (found ++ others) : Attempt (List Complaint)).run :=
      fun found => settled_attempt_bind hkeeps ih fun _ => Settled.pure _
    have hlookup : Settled (Offshoot base) (liftM (strategyFor e.key) : Attempt _).run :=
      (h.settled_strategyFor e.key).bind (h.stable.strategyFor e.key) fun _ => Settled.pure _
    rw [checkBorrowed]
    refine settled_attempt_bind (keeps_attempt_lift (h.stable.strategyFor e.key)) hlookup
      fun found => ?_
    cases found with
    | none => exact hrest []
    | some s => exact settled_attempt_bind (hone.keeps s e value) (hone.settled s e value) hrest

theorem even_checkWith (h : base.Steady)
    {checkOne : Strategy → Entry → Value → Attempt (List Complaint)} (hone : Even base checkOne)
    (env : Environment) (r : Request) : Even base (checkWith checkOne env r) where
  keeps s e value := h.stable.checkWith hone.keeps env r s e value
  settled s e value := by
    unfold checkWith
    cases s.check with
    | own check => exact Settled.pure _
    | join =>
      -- The targets of a join come from its entry, and the entries that it borrows from them.
      exact settled_attempt_bind (Keeps.pure _) (Settled.pure _) fun _ =>
        h.settled_checkBorrowed hone value _

theorem even_check (h : base.Steady) (env : Environment) (r : Request) :
    Even base (check env r) := by
  have hnone : Even base fun _ _ _ => pure [] :=
    ⟨fun _ _ _ => Keeps.pure _, fun _ _ _ => Settled.pure _⟩
  have hlent : Even base (checkLent env r) := h.even_checkWith hnone env r
  exact h.even_checkWith hlent env r

/-- The strategies find the same violations in all offshoots. -/
theorem settled_strategyViolations (h : base.Steady) (env : Environment) (r : Request)
    (b : Engine.Bound) (value : Value) (entries : List Entry) :
    Settled (Offshoot base) (Engine.strategyViolations env r b value entries) := by
  induction entries with
  | nil => exact Settled.pure _
  | cons e rest ih =>
    have hkeeps := h.stable.strategyViolations env r b value rest
    -- The rest is checked in an offshoot again, whatever the look-ups for the first entry kept.
    have hrest : ∀ found : List Violation, Settled (Offshoot base) (do
        let others ← Engine.strategyViolations env r b value rest
        pure (found ++ others)) :=
      fun found => ih.bind hkeeps fun _ => Settled.pure _
    have hcheck := h.even_check env r
    rw [Engine.strategyViolations]
    refine (h.settled_strategyFor e.key).bind (h.stable.strategyFor e.key) fun found => ?_
    cases found with
    | none => exact hrest []
    | some s =>
      refine (hcheck.settled s e value).bind (hcheck.keeps s e value) fun result => ?_
      cases result with
      | ok complaints => exact hrest _
      | error fault => exact hrest []

theorem settled_review (h : base.Steady) (i : Identity) (violations : List Violation)
    (m : Message) : Settled (Offshoot base) (Engine.review i violations m) := by
  rw [Engine.review]
  refine (h.settled_reviewerFor i).bind (h.stable.reviewerFor i) fun found => ?_
  cases found with
  | none => exact Settled.pure _
  | some reviewer => exact Settled.pure _

/-- Violations are reported in the same way in all offshoots. -/
theorem settled_report (h : base.Steady) (e : Engine) (i : Identity)
    (violations : List Violation) : Settled (Offshoot base) (e.report i violations) := by
  cases violations with
  | nil => exact Settled.pure _
  | cons first rest =>
    exact (h.settled_review i _ _).bind (h.stable.review i _ _) fun _ => Settled.pure _

end Steady

end FieldGuard.Plugins
