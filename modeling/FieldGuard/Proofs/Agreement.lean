import FieldGuard.Proofs.Keeps
import FieldGuard.Proofs.Registry

/-!
# `FieldGuard.Proofs.Agreement`: computations that do the same

A plug-in is given an environment and a request. An engine may be run with other types, or for
another request, and then everything depends on what its plug-ins look at. If no strategy that can
be found tells the one from the other, checks do the same, and so it is with transformers and
metadata. What can be found is a matter of the registries, so for the plug-ins this is an invariant
of them.

* `Agree`: two computations do the same in all states with an invariant;
* `Registry.Offers`: whatever a registry finds has a property, and look-ups do not change that;
* `Plugins.ChecksAlike`, `Plugins.ConvertsAlike`: no plug-in that can be found tells two
  environments with their requests apart;
* `Plugins.ChecksAlike.agree_strategyViolations`, `Plugins.ConvertsAlike.agree_metadataOf`: then
  checks and metadata do the same.
-/

set_option autoImplicit false

namespace FieldGuard

/-! ### Computations that do the same -/

section

variable {σ α β : Type} {I : σ → Prop}

/-- The computations do the same in all states with the invariant. -/
def Agree (I : σ → Prop) (x y : StateM σ α) : Prop :=
  ∀ s, I s → x s = y s

namespace Agree

theorem refl (x : StateM σ α) : Agree I x x :=
  fun _ _ => rfl

theorem bind {x y : StateM σ α} {f g : α → StateM σ β} (h : Agree I x y) (hkeeps : Keeps I x)
    (hf : ∀ a, Agree I (f a) (g a)) : Agree I (x >>= f) (y >>= g) := by
  intro s hs
  rw [run_bind, run_bind, ← h s hs]
  exact hf _ _ (hkeeps s hs)

/-- What follows a look-up may rely on a property of whatever that finds. -/
theorem bind_found {P : α → Prop} {x : StateM σ (Option α)} {f g : Option α → StateM σ β}
    (hkeeps : Keeps I x) (hfound : ∀ s, I s → ∀ a, (x s).1 = some a → P a)
    (hnone : Agree I (f none) (g none)) (hsome : ∀ a, P a → Agree I (f (some a)) (g (some a))) :
    Agree I (x >>= f) (x >>= g) := by
  intro s hs
  have hkept := hkeeps s hs
  rw [run_bind, run_bind]
  cases hx : (x s).1 with
  | none => exact hnone _ hkept
  | some a => exact hsome a (hfound s hs a hx) _ hkept

/-- Computations that agree for each item agree for all of them, one after the other. -/
theorem mapM {f g : α → StateM σ β} (hkeeps : ∀ a, Keeps I (f a))
    (h : ∀ a, Agree I (f a) (g a)) (items : List α) : Agree I (items.mapM f) (items.mapM g) := by
  induction items with
  | nil => exact refl _
  | cons a rest ih =>
    rw [List.mapM_cons, List.mapM_cons]
    exact (h a).bind (hkeeps a) fun _ => ih.bind (Keeps.mapM hkeeps rest) fun _ => refl _

end Agree

end

/-! ### Plug-ins with a property -/

section

variable {σ α : Type} {P : α → Prop}

/-- Whatever a factory of the catalog answers has the property. -/
def Catalog.Offers (P : α → Prop) (c : Catalog α) : Prop :=
  ∀ name f, c.factories.get? name = some f → ∀ calls a, f.answer calls = .ok a → P a

/-- What is kept and what can be made has the property. -/
structure Registry.Offers (P : α → Prop) (r : Registry σ α) : Prop where
  kept : ∀ key a, r.cached? key = some a → P a
  made : r.catalog.Offers P

theorem Registry.Offers.mono {Q : α → Prop} {r : Registry σ α} (h : r.Offers P)
    (himp : ∀ a, P a → Q a) : r.Offers Q where
  kept key a hkept := himp a (h.kept key a hkept)
  made name f hf calls a ha := himp a (h.made name f hf calls a ha)

theorem Registry.offers_of_catalog {r : Registry σ α} (hcache : r.cache = ∅)
    (h : r.catalog.Offers P) : r.Offers P where
  kept key a hkept := by simp [Registry.cached?, hcache] at hkept
  made := h

/-- The first plug-in that can be made has the property. -/
theorem Catalog.Offers.firstOf {c : Catalog α} (h : c.Offers P) {names : List String} {a : α}
    (ha : (c.firstOf names).1 = some a) : P a := by
  induction names generalizing c with
  | nil => cases ha
  | cons name rest ih =>
    rw [Catalog.firstOf] at ha
    cases hf : c.factories.get? name with
    | none =>
      rw [instantiate_unknown hf] at ha
      exact ih h ha
    | some f =>
      rw [instantiate_known hf] at ha
      cases hanswer : f.answer c.calls with
      | error fault =>
        rw [hanswer] at ha
        exact ih (c := { c with calls := c.calls ++ [c.callOf name f] }) h ha
      | ok plugin =>
        rw [hanswer] at ha
        cases ha
        exact h name f hf c.calls a hanswer

/-- What is found has the property then, and what it may find later still has it. -/
theorem Registry.Offers.resolve {r : Registry σ α} (h : r.Offers P) (key : String) (source : σ) :
    (∀ a, (r.resolve key source).1 = some a → P a) ∧ (r.resolve key source).2.Offers P := by
  cases hcached : r.cached? key with
  | some plugin =>
    rw [Registry.resolve_of_cached hcached]
    refine ⟨fun a ha => ?_, h⟩
    cases ha
    exact h.kept key plugin hcached
  | none =>
    obtain ⟨hanswer, -, hcatalog, hcache⟩ := Registry.resolve_of_not_cached hcached source
    have hfound : ∀ a, (r.catalog.firstOf (r.candidates source)).1 = some a → P a :=
      fun a => h.made.firstOf
    refine ⟨fun a ha => hfound a (hanswer ▸ ha), fun other a hkept => ?_, ?_⟩
    · rw [hcache] at hkept
      split at hkept
      · exact hfound a hkept
      · exact h.kept other a hkept
    · unfold Catalog.Offers
      rw [hcatalog, Catalog.factories_firstOf]
      exact h.made

/-- Look-ups add nothing but what the catalog could make at first. -/
theorem Registry.Offshoot.offers {keyOf : σ → String} {r₀ r : Registry σ α}
    (h : Registry.Offshoot keyOf r₀ r) (hkeys : ∀ key, ∃ source, keyOf source = key)
    (hmade : r₀.catalog.Offers P) : r.Offers P where
  kept key a hkept := by
    obtain ⟨source, rfl⟩ := hkeys key
    exact hmade.firstOf (h.kept source a hkept)
  made name f hf := hmade name f (h.factories ▸ hf)

theorem Catalog.offers_ofList {plugins : List (String × α)} (h : ∀ plugin ∈ plugins, P plugin.2) :
    (Catalog.ofList plugins).Offers P := by
  refine Catalog.forall_ofList fun plugin hplugin calls a ha => ?_
  cases ha
  exact h plugin hplugin

end

/-! ### Plug-ins that do not tell two requests apart -/

/-- The strategy finds the same in both environments, each with its request. -/
def Strategy.Alike (env env' : Environment) (r r' : Request) (s : Strategy) : Prop :=
  ∀ check, s.check = .own check → check env r = check env' r'

/-- The transformer makes the same in both environments, each with its request. -/
def Transformer.Alike (env env' : Environment) (r r' : Request) (t : Transformer) : Prop :=
  ∀ convert, t.conversion = .own convert → convert env r = convert env' r'

/-- The standard strategies look at the entry and the value only. -/
theorem Strategy.alike_of_standard {s : Strategy} (hs : s ∈ Strategy.standard)
    (env env' : Environment) (r r' : Request) : s.Alike env env' r r' := by
  intro check hcheck
  simp only [Strategy.standard, Strategy.ofEntry, List.mem_cons, List.not_mem_nil, or_false] at hs
  rcases hs with rfl | rfl | rfl | rfl | rfl | rfl | rfl <;> cases hcheck <;> rfl

/-- The standard transformers look at the entry only. -/
theorem Transformer.alike_of_standard {t : Transformer} (ht : t ∈ Transformer.standard)
    (env env' : Environment) (r r' : Request) : t.Alike env env' r r' := by
  intro convert hconvert
  simp only [Transformer.standard, Transformer.ofEntry, List.mem_cons, List.not_mem_nil,
    or_false] at ht
  rcases ht with rfl | rfl | rfl | rfl | rfl | rfl | rfl | rfl <;> cases hconvert <;> rfl

/-- What holds of the standard strategies holds of all that the standard catalog can make. -/
theorem Strategy.offers_catalog {P : Strategy → Prop} (h : ∀ s ∈ Strategy.standard, P s) :
    Strategy.catalog.Offers P := by
  refine Catalog.offers_ofList fun plugin hplugin => ?_
  obtain ⟨s, hs, rfl⟩ := List.mem_map.1 hplugin
  exact h s hs

/-- What holds of the standard transformers holds of all that the standard catalog can make. -/
theorem Transformer.offers_catalog {P : Transformer → Prop} (h : ∀ t ∈ Transformer.standard, P t) :
    Transformer.catalog.Offers P := by
  refine Catalog.offers_ofList fun plugin hplugin => ?_
  obtain ⟨t, ht, rfl⟩ := List.mem_map.1 hplugin
  exact h t ht

namespace Plugins

variable {I : Plugins → Prop} {α β : Type}

theorem agree_attempt_bind {x y : Attempt α} {f g : α → Attempt β} (h : Agree I x.run y.run)
    (hkeeps : Keeps I x.run) (hf : ∀ a, Agree I (f a).run (g a).run) :
    Agree I (x >>= f).run (y >>= g).run := by
  show Agree I (x.run >>= ExceptT.bindCont f) (y.run >>= ExceptT.bindCont g)
  refine h.bind hkeeps fun result => ?_
  cases result with
  | ok a => exact hf a
  | error fault => exact Agree.refl _

theorem run_liftM_bind (x : StateM Plugins α) (f : α → Attempt β) :
    (liftM x >>= f : Attempt β).run = x >>= fun a => (f a).run := rfl

/-- In both environments, each with its request, joins borrow the same entries, and no strategy
that can be found makes a difference. -/
structure ChecksAlike (I : Plugins → Prop) (env env' : Environment) (r r' : Request) : Prop where
  stable : Stable I
  borrowed : Extraction.borrowed env r.page = Extraction.borrowed env' r'.page
  strategies : ∀ p, I p → p.strategies.Offers (Strategy.Alike env env' r r')

/-- The same of transformers. -/
structure ConvertsAlike (I : Plugins → Prop) (env env' : Environment) (r r' : Request) :
    Prop where
  stable : Stable I
  borrowed : Extraction.borrowed env r.page = Extraction.borrowed env' r'.page
  transformers : ∀ p, I p → p.transformers.Offers (Transformer.Alike env env' r r')

variable {env env' : Environment} {r r' : Request}

namespace ChecksAlike

variable (h : ChecksAlike I env env' r r')
include h

/-- What follows the look-up of a strategy may rely on it. -/
theorem agree_strategyFor_bind (key : String) {f g : Option Strategy → StateM Plugins β}
    (hnone : Agree I (f none) (g none))
    (hsome : ∀ s, s.Alike env env' r r' → Agree I (f (some s)) (g (some s))) :
    Agree I (strategyFor key >>= f) (strategyFor key >>= g) :=
  Agree.bind_found (h.stable.strategyFor key)
    (fun p hp => ((h.strategies p hp).resolve key key).1) hnone hsome

theorem agree_checkBorrowed
    {checkOne checkOne' : Strategy → Entry → Value → Attempt (List Complaint)}
    (hkeeps : ∀ s e v, Keeps I (checkOne s e v).run)
    (hone : ∀ s, s.Alike env env' r r' → ∀ e v,
      Agree I (checkOne s e v).run (checkOne' s e v).run)
    (value : Value) (entries : List Entry) :
    Agree I (checkBorrowed checkOne value entries).run
      (checkBorrowed checkOne' value entries).run := by
  induction entries with
  | nil => exact Agree.refl _
  | cons e rest ih =>
    have hrest : ∀ found : List Complaint, Agree I
        (do let others ← checkBorrowed checkOne value rest
            pure (found ++ others) : Attempt (List Complaint)).run
        (do let others ← checkBorrowed checkOne' value rest
            pure (found ++ others) : Attempt (List Complaint)).run :=
      fun found => agree_attempt_bind ih (h.stable.checkBorrowed hkeeps value rest)
        fun _ => Agree.refl _
    rw [checkBorrowed, checkBorrowed, run_liftM_bind, run_liftM_bind]
    exact h.agree_strategyFor_bind e.key (hrest []) fun s hs =>
      agree_attempt_bind (hone s hs e value) (hkeeps s e value) hrest

theorem agree_checkWith {checkOne checkOne' : Strategy → Entry → Value → Attempt (List Complaint)}
    (hkeeps : ∀ s e v, Keeps I (checkOne s e v).run)
    (hone : ∀ s, s.Alike env env' r r' → ∀ e v,
      Agree I (checkOne s e v).run (checkOne' s e v).run)
    {s : Strategy} (hs : s.Alike env env' r r') (e : Entry) (value : Value) :
    Agree I (checkWith checkOne env r s e value).run
      (checkWith checkOne' env' r' s e value).run := by
  unfold checkWith
  cases hcheck : s.check with
  | own check =>
    dsimp only
    rw [hs check hcheck]
    exact Agree.refl _
  | join =>
    -- A join looks at the environment and the request for the entries it borrows only.
    dsimp only
    rw [h.borrowed]
    exact agree_attempt_bind (Agree.refl _) (Keeps.pure _) fun _ =>
      h.agree_checkBorrowed hkeeps hone value _

/-- Checks by a strategy that makes no difference do the same. -/
theorem agree_check {s : Strategy} (hs : s.Alike env env' r r') (e : Entry) (value : Value) :
    Agree I (check env r s e value).run (check env' r' s e value).run := by
  have hlent : ∀ s, s.Alike env env' r r' → ∀ e v,
      Agree I (checkLent env r s e v).run (checkLent env' r' s e v).run :=
    fun s hs e v => h.agree_checkWith (fun _ _ _ => Keeps.pure _)
      (fun _ _ _ _ => Agree.refl _) hs e v
  exact h.agree_checkWith (h.stable.checkWith (fun _ _ _ => Keeps.pure _) env r) hlent hs e value

theorem agree_strategyViolations (b : Engine.Bound) (value : Value) (entries : List Entry) :
    Agree I (Engine.strategyViolations env r b value entries)
      (Engine.strategyViolations env' r' b value entries) := by
  induction entries with
  | nil => exact Agree.refl _
  | cons e rest ih =>
    have hrest : ∀ found : List Violation, Agree I
        (do let others ← Engine.strategyViolations env r b value rest
            pure (found ++ others))
        (do let others ← Engine.strategyViolations env' r' b value rest
            pure (found ++ others)) :=
      fun found => ih.bind (h.stable.strategyViolations env r b value rest) fun _ => Agree.refl _
    rw [Engine.strategyViolations, Engine.strategyViolations]
    refine h.agree_strategyFor_bind e.key (hrest []) fun s hs => ?_
    refine (h.agree_check hs e value).bind (h.stable.check env r s e value) fun result => ?_
    cases result with
    | ok complaints => exact hrest _
    | error fault => exact hrest []

end ChecksAlike

theorem agree_mergeEntries (h : Stable I)
    {transformOne transformOne' : Strategy → Entry → StateM Plugins (Option Metadata)}
    (hkeeps : ∀ s e, Keeps I (transformOne s e))
    (hone : ∀ s e, Agree I (transformOne s e) (transformOne' s e))
    (metadata : Metadata) (entries : List Entry) :
    Agree I (mergeEntries transformOne metadata entries)
      (mergeEntries transformOne' metadata entries) := by
  induction entries generalizing metadata with
  | nil => exact Agree.refl _
  | cons e rest ih =>
    rw [mergeEntries, mergeEntries]
    refine (Agree.refl (strategyFor e.key)).bind (h.strategyFor e.key) fun found => ?_
    cases found with
    | none => exact ih metadata
    | some s => exact (hone s e).bind (hkeeps s e) fun _ => ih _

namespace ConvertsAlike

variable (h : ConvertsAlike I env env' r r')
include h

theorem agree_convertWith
    {transformOne transformOne' : Strategy → Entry → StateM Plugins (Option Metadata)}
    (hkeeps : ∀ s e, Keeps I (transformOne s e))
    (hone : ∀ s e, Agree I (transformOne s e) (transformOne' s e))
    {t : Transformer} (ht : t.Alike env env' r r') (e : Entry) :
    Agree I (convertWith transformOne env r t e).run (convertWith transformOne' env' r' t e).run := by
  unfold convertWith
  cases hconversion : t.conversion with
  | own convert =>
    dsimp only
    rw [ht convert hconversion]
    exact Agree.refl _
  | join =>
    dsimp only
    rw [h.borrowed]
    refine agree_attempt_bind (Agree.refl _) (Keeps.pure _) fun targets => ?_
    have hmerged := agree_mergeEntries h.stable hkeeps hone ∅
      (targets.flatMap (Extraction.borrowed env' r'.page))
    exact hmerged.bind (h.stable.mergeEntries hkeeps _ _)
      fun metadata => Agree.refl (pure (Except.ok metadata))

theorem agree_transformWith
    {transformOne transformOne' : Strategy → Entry → StateM Plugins (Option Metadata)}
    (hkeeps : ∀ s e, Keeps I (transformOne s e))
    (hone : ∀ s e, Agree I (transformOne s e) (transformOne' s e)) (s : Strategy) (e : Entry) :
    Agree I (transformWith transformOne env r s e) (transformWith transformOne' env' r' s e) := by
  rw [transformWith, transformWith]
  refine Agree.bind_found (h.stable.transformerFor s)
    (fun p hp => ((h.transformers p hp).resolve s.name s).1) (Agree.refl _) fun t ht => ?_
  exact (h.agree_convertWith hkeeps hone ht e).bind (h.stable.convertWith hkeeps env r t e)
    fun _ => Agree.refl _

/-- The metadata of an entry is the same. -/
theorem agree_transform (s : Strategy) (e : Entry) :
    Agree I (transform env r s e) (transform env' r' s e) := by
  have hlent : ∀ s e, Agree I (transformLent env r s e) (transformLent env' r' s e) :=
    h.agree_transformWith (fun _ _ => Keeps.pure _) fun _ _ => Agree.refl _
  exact h.agree_transformWith (h.stable.transformWith (fun _ _ => Keeps.pure _) env r) hlent s e

theorem agree_metadataOf (info : PropertyInfo) :
    Agree I (metadataOf env r info) (metadataOf env' r' info) :=
  agree_mergeEntries h.stable (h.stable.transform env r) h.agree_transform _ _

theorem agree_mergeConstraints (d : Details) (binding : Option String) (metadata : Metadata)
    (constraints : List Constraint) :
    Agree I (Engine.mergeConstraints env r d binding metadata constraints)
      (Engine.mergeConstraints env' r' d binding metadata constraints) := by
  induction constraints generalizing metadata with
  | nil => exact Agree.refl _
  | cons c rest ih =>
    exact (h.agree_transform _ _).bind (h.stable.transform env r _ _) fun _ => ih _

end ConvertsAlike

end Plugins

end FieldGuard
