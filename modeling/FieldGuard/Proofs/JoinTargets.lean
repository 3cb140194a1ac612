import FieldGuard.Proofs.BorrowedChecks
import Mathlib.Data.List.Forall2

/-!
# `FieldGuard.Proofs.JoinTargets`: the targets of joins away from their property

A join may name its targets relative to the binding that its entry was found for. Extraction for
a join puts absolute bindings in their place, as far as there is a binding to start from. A
relative target of an entry without one is left out. What is left are bindings all the same, and
so the entry is written over with fewer targets than it has. That does not change where the join
leads (`Entry.joinTargets_redirected`), but the target is lost.

Entries have no binding just when the property is meant by its details (`binding?_of_mem_extract`).

* `Entry.redirected`: what becomes of one entry;
* `Extraction.withAbsoluteTargets_eq`, `Extraction.genuine_of_withAbsoluteTargets`: rewriting all
  entries succeeds just when none takes the name of a join without being one;
* `Entry.keepsTargets_redirected_iff`: which entries keep their targets;
* `join_targets_kept_iff`: both for any extraction;
* `join_targets_lost`: a property that is meant by its details.
-/

set_option autoImplicit false

namespace FieldGuard

/-! ### One entry -/

namespace Entry

/-- The entry with its targets made absolute, if all that are left of them are bindings then. -/
def redirected (e : Entry) : Entry :=
  match e.annotation with
  | .join declared =>
    let targets := declared.filterMap e.absoluteTarget?
    if targets.all isTerm then e.withAnnotation (.join targets) else e
  | _ => e

/-- An entry under the name of joins is one. Markers may have any name. -/
def Genuine (e : Entry) : Prop :=
  e.isJoin = true → ∃ declared, e.annotation = .join declared

/-- The target is the declared one, or the absolute binding that the declared one stands for when
it is resolved from the binding of the entry. -/
def StandsFor (e : Entry) (declared target : String) : Prop :=
  target = declared ∨ ∃ binding, e.binding? = some binding ∧ isTerm target = true ∧
    target = (Binding.resolvePath ⟨binding⟩ declared).text

/-- A join keeps its targets in their order, each as it is or as what it stands for. -/
def KeepsTargets (e rewritten : Entry) : Prop :=
  ∀ declared, e.annotation = .join declared →
    ∃ targets, rewritten.annotation = .join targets ∧ List.Forall₂ e.StandsFor declared targets

/-- Nothing of the entry is rewritten but the targets of a join, and these lead where they led. -/
structure Redirects (e rewritten : Entry) : Prop where
  frame : rewritten = e.withAnnotation rewritten.annotation
  other : (∀ declared, e.annotation ≠ .join declared) → rewritten = e
  targets : rewritten.joinTargets = e.joinTargets

variable {e : Entry} {declared : List String}

theorem joinTargets_of_join (h : e.annotation = .join declared) :
    e.joinTargets = .ok (declared.filterMap e.absoluteTarget?) := by
  unfold joinTargets join
  rw [h]
  rfl

theorem absoluteTarget?_of_isTerm {target : String} (h : isTerm target = true) :
    e.absoluteTarget? target = some target :=
  if_pos h

/-- Bindings are absolute as they are. -/
theorem filterMap_absoluteTarget?_of_all (h : declared.all isTerm = true) :
    declared.filterMap e.absoluteTarget? = declared := by
  have hsame : declared.filterMap e.absoluteTarget? = declared.filterMap some :=
    List.filterMap_congr fun target htarget =>
      absoluteTarget?_of_isTerm (List.all_eq_true.1 h target htarget)
  rw [hsame, List.filterMap_some]

/-- Without a binding to start from only the targets are left that are bindings themselves. -/
theorem filterMap_absoluteTarget?_of_unbound (h : e.binding? = none) :
    declared.filterMap e.absoluteTarget? = declared.filter isTerm := by
  rw [← List.filterMap_eq_filter]
  refine List.filterMap_congr fun target _ => ?_
  unfold absoluteTarget?
  rw [h]
  cases hterm : isTerm target <;> simp [Option.guard, hterm]

theorem redirected_of_join (h : e.annotation = .join declared)
    (hall : (declared.filterMap e.absoluteTarget?).all isTerm = true) :
    e.redirected = e.withAnnotation (.join (declared.filterMap e.absoluteTarget?)) := by
  unfold redirected
  rw [h]
  exact if_pos hall

theorem redirected_of_relative (h : e.annotation = .join declared)
    (hall : (declared.filterMap e.absoluteTarget?).all isTerm = false) : e.redirected = e := by
  unfold redirected
  rw [h]
  exact if_neg (by simp [hall])

theorem redirected_of_other (h : ∀ declared, e.annotation ≠ .join declared) :
    e.redirected = e := by
  unfold redirected
  split
  · next declared hjoin => exact absurd hjoin (h declared)
  · rfl

/-- The targets of a join lead to the same bindings when they have been made absolute. -/
theorem joinTargets_redirected (e : Entry) : e.redirected.joinTargets = e.joinTargets := by
  by_cases hjoin : ∃ declared, e.annotation = .join declared
  · obtain ⟨declared, hdeclared⟩ := hjoin
    cases hall : (declared.filterMap e.absoluteTarget?).all isTerm with
    | false => rw [redirected_of_relative hdeclared hall]
    | true =>
      rw [redirected_of_join hdeclared hall, joinTargets_of_join hdeclared,
        joinTargets_of_join (e := e.withAnnotation _) rfl, filterMap_absoluteTarget?_of_all hall]
  · rw [redirected_of_other (not_exists.1 hjoin)]

theorem redirects_redirected (e : Entry) : e.Redirects e.redirected where
  frame := by
    unfold redirected
    split
    · dsimp only
      split <;> rfl
    · rfl
  other := redirected_of_other
  targets := e.joinTargets_redirected

/-- From a binding every target leads somewhere, so none is left out. -/
theorem keepsTargets_redirected_of_bound {binding : String} (h : e.binding? = some binding) :
    e.KeepsTargets e.redirected := by
  intro declared hdeclared
  cases hall : (declared.filterMap e.absoluteTarget?).all isTerm with
  | false =>
    rw [redirected_of_relative hdeclared hall]
    exact ⟨declared, hdeclared, List.forall₂_same.2 fun _ _ => .inl rfl⟩
  | true =>
    refine ⟨_, congrArg annotation (redirected_of_join hdeclared hall), ?_⟩
    let absolute (target : String) : String :=
      if isTerm target then target else (Binding.resolvePath ⟨binding⟩ target).text
    have hmap : declared.filterMap e.absoluteTarget? = declared.map absolute := by
      rw [← List.filterMap_eq_map]
      refine List.filterMap_congr fun target _ => ?_
      unfold absoluteTarget?
      rw [h]
      cases hterm : isTerm target <;> simp [absolute, hterm]
    rw [hmap] at hall ⊢
    rw [List.forall₂_map_right_iff, List.forall₂_same]
    intro target htarget
    have hterm := List.all_eq_true.1 hall (absolute target) (List.mem_map_of_mem htarget)
    by_cases hdirect : isTerm target = true
    · exact .inl (if_pos hdirect)
    · exact .inr ⟨binding, h, hterm, if_neg hdirect⟩

/-- Without a binding a join keeps its targets just when all of them are bindings themselves. -/
theorem keepsTargets_redirected_iff_of_unbound (h : e.binding? = none)
    (hdeclared : e.annotation = .join declared) :
    e.KeepsTargets e.redirected ↔ declared.all isTerm = true := by
  have hleft : declared.filterMap e.absoluteTarget? = declared.filter isTerm :=
    filterMap_absoluteTarget?_of_unbound h
  have hall : (declared.filterMap e.absoluteTarget?).all isTerm = true := by
    rw [hleft]
    exact List.all_eq_true.2 fun target htarget => (List.mem_filter.1 htarget).2
  have hredirected := redirected_of_join hdeclared hall
  rw [hleft] at hredirected
  constructor
  · intro hkeeps
    obtain ⟨targets, htargets, hstand⟩ := hkeeps declared hdeclared
    rw [hredirected] at htargets
    cases htargets
    -- As many are left as are declared, so none has been left out.
    have hsame : declared.filter isTerm = declared :=
      (List.filter_sublist (p := isTerm) (l := declared)).eq_of_length hstand.length_eq.symm
    rw [List.filter_eq_self] at hsame
    exact List.all_eq_true.2 hsame
  · intro hterms other hother
    rw [hdeclared] at hother
    cases hother
    refine ⟨declared, ?_, List.forall₂_same.2 fun _ _ => .inl rfl⟩
    rw [hredirected, List.filter_eq_self.2 (List.all_eq_true.1 hterms)]
    rfl

/-- A join keeps its targets just when its entry has a binding to resolve them from or all of them
are bindings themselves. -/
theorem keepsTargets_redirected_iff (e : Entry) :
    e.KeepsTargets e.redirected ↔
      (e.binding? = none → ∀ declared, e.annotation = .join declared →
        declared.all isTerm = true) := by
  cases hbinding : e.binding? with
  | some binding => simp [keepsTargets_redirected_of_bound hbinding]
  | none =>
    constructor
    · intro hkeeps _ declared hdeclared
      exact (keepsTargets_redirected_iff_of_unbound hbinding hdeclared).1 hkeeps
    · intro hterms declared hdeclared
      exact (keepsTargets_redirected_iff_of_unbound hbinding hdeclared).2
        (hterms rfl declared hdeclared) declared hdeclared

theorem isJoin_of_join (hkey : e.key = e.annotation.key) (h : e.annotation = .join declared) :
    e.isJoin = true := by
  rw [isJoin, hkey, h]
  rfl

/-- An entry that is a join if it has the name of one is rewritten. -/
theorem withAbsoluteTargets_of_genuine (hkey : e.key = e.annotation.key) (h : e.Genuine) :
    e.withAbsoluteTargets = .ok e.redirected := by
  unfold withAbsoluteTargets
  cases hjoin : e.isJoin with
  | false =>
    rw [redirected_of_other]
    · rfl
    · intro declared hdeclared
      rw [isJoin_of_join hkey hdeclared] at hjoin
      cases hjoin
  | true =>
    obtain ⟨declared, hdeclared⟩ := h hjoin
    rw [joinTargets_of_join hdeclared]
    cases hall : (declared.filterMap e.absoluteTarget?).all isTerm with
    | false =>
      rw [redirected_of_relative hdeclared hall]
      simp [bind, Except.bind, hall]
    | true =>
      rw [redirected_of_join hdeclared hall]
      simp [bind, Except.bind, hall]

/-- Any other entry has no targets to make absolute. -/
theorem genuine_of_withAbsoluteTargets {rewritten : Entry}
    (h : e.withAbsoluteTargets = .ok rewritten) : e.Genuine := by
  intro hjoin
  unfold withAbsoluteTargets at h
  rw [if_pos hjoin] at h
  obtain ⟨targets, htargets, -⟩ := ok_of_bind h
  obtain ⟨declared, hdeclared, -⟩ := ok_of_bind htargets
  unfold join at hdeclared
  split at hdeclared
  · next targets hannotation => exact ⟨targets, hannotation⟩
  · cases hdeclared

end Entry

/-! ### All entries of a property -/

namespace Extraction

theorem withAbsoluteTargets_eq {entries : List Entry}
    (hkeys : ∀ e ∈ entries, e.key = e.annotation.key) (h : ∀ e ∈ entries, e.Genuine) :
    withAbsoluteTargets entries = .ok (entries.map .redirected) := by
  induction entries with
  | nil => rfl
  | cons e rest ih =>
    obtain ⟨hkey, hkeys⟩ := List.forall_mem_cons.1 hkeys
    obtain ⟨hfirst, hrest⟩ := List.forall_mem_cons.1 h
    rw [withAbsoluteTargets, Entry.withAbsoluteTargets_of_genuine hkey hfirst, ih hkeys hrest]
    rfl

theorem genuine_of_withAbsoluteTargets {entries found : List Entry}
    (h : withAbsoluteTargets entries = .ok found) : ∀ e ∈ entries, e.Genuine := by
  induction entries generalizing found with
  | nil => simp
  | cons e rest ih =>
    rw [withAbsoluteTargets] at h
    obtain ⟨rewritten, hfirst, h⟩ := ok_of_bind h
    obtain ⟨others, hrest, -⟩ := ok_of_bind h
    exact List.forall_mem_cons.2 ⟨Entry.genuine_of_withAbsoluteTargets hfirst, ih hrest⟩

section

variable {env : Environment} {page : Page} {target : Target} {info : PropertyInfo}

theorem extractForJoin_of_error {fault : Fault} (h : extract env page target = .error fault) :
    extractForJoin env page target = .error fault := by
  rw [extractForJoin, h]
  rfl

/-- Extraction for a join finds what extraction finds, with the entries rewritten one by one. -/
theorem extractForJoin_of_genuine (h : extract env page target = .ok info)
    (hgenuine : ∀ e ∈ info.entries, e.Genuine) :
    extractForJoin env page target
      = .ok { info with entries := info.entries.map .redirected } := by
  rw [extractForJoin, h]
  show (withAbsoluteTargets info.entries >>= _) = _
  rw [withAbsoluteTargets_eq (fun _ he => key_of_mem_extract h he) hgenuine]
  rfl

theorem genuine_of_extractForJoin {found : PropertyInfo} (h : extract env page target = .ok info)
    (hfound : extractForJoin env page target = .ok found) : ∀ e ∈ info.entries, e.Genuine := by
  rw [extractForJoin, h] at hfound
  change (withAbsoluteTargets info.entries >>= _) = _ at hfound
  obtain ⟨entries, hentries, -⟩ := ok_of_bind hfound
  exact genuine_of_withAbsoluteTargets hentries

theorem binding?_entry (property : String) (binding : Option String) (declaring : TypeDecl)
    (a : Annotation) : (entry property binding declaring a).binding? = binding := by
  cases binding with
  | none => rfl
  | some text => exact Dict.get?_insert_self _ _ _

/-- A property is located without a binding just when it is meant by its details. -/
theorem binding_of_locate {d : Details} {binding : Option String}
    (h : locate env page target = .ok (d, binding)) :
    binding = none ↔ ∃ d, target = .details d := by
  have hbinding : ∀ text, locateBinding env page text = .ok (d, binding) → binding ≠ none := by
    intro text hlocate
    unfold locateBinding at hlocate
    split at hlocate
    · obtain ⟨_, -, hpair⟩ := ok_of_bind hlocate
      cases hpair
      simp
    · cases hlocate
  cases target with
  | details d' =>
    cases h
    simp
  | binding text => simp [hbinding text h]
  | component c =>
    cases htext : c.valueBinding with
    | none => simp [locate, htext] at h
    | some text =>
      have hlocate : locateBinding env page text = .ok (d, binding) := by
        simpa only [locate, htext] using h
      simp [hbinding text hlocate]

/-- Entries are found without a binding just when the property is meant by its details. -/
theorem binding?_of_mem_extract (h : extract env page target = .ok info) {e : Entry}
    (he : e ∈ info.entries) : e.binding? = none ↔ ∃ d, target = .details d := by
  obtain ⟨d, binding, hlocate, ⟨-, rfl⟩ | ⟨owner, -, -, -, rfl⟩⟩ := extract_eq_ok_iff.1 h
  · cases he
  · obtain ⟨declared, -, hannotation⟩ := List.mem_flatMap.1 he
    obtain ⟨a, -, rfl⟩ := List.mem_map.1 hannotation
    rw [← binding_of_locate hlocate, binding?_entry]

end

end Extraction

open Extraction

/-- What extraction for a join makes of the entries of a property, whatever the property is meant by.

* Where the standard extraction fails, it fails in the same way. Otherwise it succeeds just when no
  marker among the entries bears the name of joins.
* Then it has the same facts and the same entries in the same order, each with its key, property,
  declaring type and sources. Only the targets of joins may be others, and those lead to the same
  bindings as before.
* All joins keep all their targets, each as it is or as the absolute binding that it stands for,
  just when the property is meant by a component or a binding, or all targets are bindings. -/
theorem join_targets_kept_iff (env : Environment) (r : Request) (target : Target) :
    (∀ fault, Extractor.standard.extract env r target = .error fault →
      Extractor.forJoin.extract env r target = .error fault) ∧
    ∀ info, Extractor.standard.extract env r target = .ok info →
      ((∃ found, Extractor.forJoin.extract env r target = .ok found) ↔
        ∀ e ∈ info.entries, e.Genuine) ∧
      ∀ found, Extractor.forJoin.extract env r target = .ok found →
        found.facts = info.facts ∧
        List.Forall₂ Entry.Redirects info.entries found.entries ∧
        (List.Forall₂ Entry.KeepsTargets info.entries found.entries ↔
          ((∃ d, target = .details d) → ∀ e ∈ info.entries, ∀ declared,
            e.annotation = .join declared → declared.all isTerm = true)) := by
  refine ⟨fun fault h => extractForJoin_of_error h, fun info h => ?_⟩
  refine ⟨⟨fun ⟨found, hfound⟩ => genuine_of_extractForJoin h hfound,
    fun hgenuine => ⟨_, extractForJoin_of_genuine h hgenuine⟩⟩, fun found hfound => ?_⟩
  have hrewritten := extractForJoin_of_genuine h (genuine_of_extractForJoin h hfound)
  obtain rfl : found = { info with entries := info.entries.map .redirected } :=
    Except.ok.inj (hfound.symm.trans hrewritten)
  refine ⟨rfl, ?_, ?_⟩
  · rw [List.forall₂_map_right_iff, List.forall₂_same]
    exact fun e _ => e.redirects_redirected
  · rw [List.forall₂_map_right_iff, List.forall₂_same]
    -- What decides for each entry is whether it has a binding, and that is the same for all.
    constructor
    · intro hkeeps hdetails e he
      exact e.keepsTargets_redirected_iff.1 (hkeeps e he) ((binding?_of_mem_extract h he).2 hdetails)
    · intro hterms e he
      exact e.keepsTargets_redirected_iff.2 fun hnone =>
        hterms ((binding?_of_mem_extract h he).1 hnone) e he

/-! ### A reference to a code and a number -/

/-- The reference of an order borrows from its code, and from the number of an invoice. -/
def borrowingEnv : Environment where
  types := .ofTypes
    [{ name := "Order", properties :=
        [.new "code", (PropertyDecl.new "reference").onField
          (.join ["code", "#\x7binvoice.number\x7d"])] }]

/-- A page with one order. -/
def borrowingPage : Request :=
  .new "/edit.xhtml" (Dict.ofList [("order", .object (Record.ofType "Order"))])

/-- The targets of the joins that an extractor finds. -/
def declaredTargets (x : Extractor) (target : Target) : Option (List (List String)) :=
  (x.extract borrowingEnv borrowingPage target).toOption.map fun info =>
    info.entries.filterMap fun e => e.join.toOption

/-- By a binding, both targets are kept: the code as what it stands for, the number as it is. -/
theorem join_targets_kept_iff_reference :
    let target := Target.binding "#\x7border.reference\x7d"
    declaredTargets .standard target = some [["code", "#\x7binvoice.number\x7d"]] ∧
    declaredTargets .forJoin target = some [["#\x7border.code\x7d", "#\x7binvoice.number\x7d"]] ∧
    ∃ info found, Extractor.standard.extract borrowingEnv borrowingPage target = .ok info ∧
      Extractor.forJoin.extract borrowingEnv borrowingPage target = .ok found ∧
      List.Forall₂ Entry.KeepsTargets info.entries found.entries := by
  intro target
  refine ⟨by decide +kernel, by decide +kernel, ?_⟩
  have hdone : (Extractor.standard.extract borrowingEnv borrowingPage target).isOk = true ∧
      (Extractor.forJoin.extract borrowingEnv borrowingPage target).isOk = true := by
    decide +kernel
  cases hinfo : Extractor.standard.extract borrowingEnv borrowingPage target with
  | error fault => simp [hinfo, Except.isOk, Except.toBool] at hdone
  | ok info =>
    cases hfound : Extractor.forJoin.extract borrowingEnv borrowingPage target with
    | error fault => simp [hfound, Except.isOk, Except.toBool] at hdone
    | ok found =>
      obtain ⟨-, -, hkept⟩ := ((join_targets_kept_iff _ _ _).2 info hinfo).2 found hfound
      exact ⟨info, found, rfl, rfl, hkept.2 fun ⟨d, hd⟩ => by simp [target] at hd⟩

/-- By its details, the target that is relative is lost. -/
theorem join_targets_lost :
    let target := Target.details ⟨"order.reference", some (Record.ofType "Order"), "reference"⟩
    declaredTargets .standard target = some [["code", "#\x7binvoice.number\x7d"]] ∧
    declaredTargets .forJoin target = some [["#\x7binvoice.number\x7d"]] := by
  decide +kernel

end FieldGuard
