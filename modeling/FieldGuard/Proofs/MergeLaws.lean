import FieldGuard.Engine.Render
import FieldGuard.Proofs.MergedBounds
import FieldGuard.Proofs.SameContent

/-!
# `FieldGuard.Proofs.MergeLaws`: metadata is merged in any grouping

Metadata is merged at several places: entry by entry for a property, apart for what a join
borrows, and apart again for the constraints of the constraint engine. What is merged apart is
merged into the rest as a whole. That this makes no difference rests on one law, that merging is
associative, and on the empty metadata changing nothing.

Associativity is a matter of the values under one name, and every policy has its own reason for
it. Of bounds the first strictest one is kept, in either grouping, as long as the order compares
any two; values that are no numbers count for nothing beside one that is. Lists keep the first of
items that are the same, which takes no more than that sameness is transitive.

* `Policy.combine_assoc`: every policy is associative, on all JSON values;
* `merge_assoc`, `merge_empty`, `empty_merge`: so metadata is a monoid under merging;
* `merge_in_any_grouping`: what follows for metadata merged in groups, and for a component.
-/

set_option autoImplicit false

namespace FieldGuard

/-! ### Lists without duplicates -/

section

variable {α : Type} [BEq α]

theorem contains_addUnique {items : List α} {a : α} (h : items.contains a = true) (item : α) :
    (addUnique items item).contains a = true := by
  unfold addUnique
  split
  · exact h
  · rw [List.contains_append, h, Bool.true_or]

theorem contains_foldl_addUnique {acc : List α} {a : α} (h : acc.contains a = true)
    (items : List α) : (items.foldl addUnique acc).contains a = true := by
  induction items generalizing acc with
  | nil => exact h
  | cons item rest ih => exact ih (contains_addUnique h item)

/-- What is among the items that are added is among those that are there afterwards, itself or as
one that is the same. -/
theorem contains_foldl_addUnique_of_mem
    (htrans : ∀ {a b c : α}, (a == b) = true → (b == c) = true → (a == c) = true)
    {items : List α} {a : α} (h : items.contains a = true) (acc : List α) :
    (items.foldl addUnique acc).contains a = true := by
  induction items generalizing acc with
  | nil => simp at h
  | cons item rest ih =>
    rw [List.contains_cons, Bool.or_eq_true] at h
    rcases h with hsame | hrest
    · -- The item is added, or left out for one that is the same.
      refine contains_foldl_addUnique ?_ rest
      unfold addUnique
      split
      · next hthere =>
        obtain ⟨b, hb, hitem⟩ := List.contains_iff_exists_mem_beq.1 hthere
        exact List.contains_iff_exists_mem_beq.2 ⟨b, hb, htrans hsame hitem⟩
      · exact List.contains_iff_exists_mem_beq.2 ⟨item, by simp, hsame⟩
    · exact ih hrest _

/-- Adding items to a list that is added to another one is adding them to the latter. -/
theorem foldl_addUnique_assoc
    (htrans : ∀ {a b c : α}, (a == b) = true → (b == c) = true → (a == c) = true)
    (xs ys zs : List α) :
    zs.foldl addUnique (ys.foldl addUnique xs) = (zs.foldl addUnique ys).foldl addUnique xs := by
  induction zs generalizing ys with
  | nil => rfl
  | cons z zs ih =>
    have hstep : addUnique (ys.foldl addUnique xs) z = (addUnique ys z).foldl addUnique xs := by
      by_cases hz : ys.contains z = true
      · have hlater := contains_foldl_addUnique_of_mem htrans hz xs
        rw [addUnique, if_pos hlater, addUnique, if_pos hz]
      · rw [addUnique.eq_def ys, if_neg hz, List.foldl_append]
        rfl
    rw [List.foldl_cons, List.foldl_cons, hstep, ih]

end

namespace Metadata

/-! ### The values under one name -/

section

variable {keeps : Int → Int → Bool}

/-- Of bounds the first strictest one is kept, in either grouping. -/
theorem stricter_assoc
    (htrans : ∀ {a b c}, keeps a b = true → keeps b c = true → keeps a c = true)
    (hnegative : ∀ {a b c}, keeps a b = false → keeps b c = false → keeps a c = false)
    (x y z : Json) :
    stricter keeps (stricter keeps x y) z = stricter keeps x (stricter keeps y z) := by
  -- Where one of them is no number, one of the comparisons is not made.
  cases hx : x.asFloat? with
  | none => simp [stricter, hx]
  | some a =>
    cases hy : y.asFloat? with
    | none =>
      cases hz : z.asFloat? <;> simp [stricter, hx, hy, hz]
    | some b =>
      cases hz : z.asFloat? with
      | none =>
        cases hab : keeps (Number.orderKey a) (Number.orderKey b) <;>
          simp [stricter, hx, hy, hz, hab]
      | some c =>
        cases hab : keeps (Number.orderKey a) (Number.orderKey b) <;>
          cases hbc : keeps (Number.orderKey b) (Number.orderKey c)
        · simp [stricter, hx, hy, hz, hab, hbc, hnegative hab hbc]
        · simp [stricter, hx, hy, hz, hab, hbc]
        · simp [stricter, hx, hy, hz, hab, hbc]
        · simp [stricter, hx, hy, hz, hab, hbc, htrans hab hbc]

end

theorem joinItems_assoc (x y z : Json) :
    joinItems (joinItems x y) z = joinItems x (joinItems y z) :=
  congrArg Json.array (foldl_addUnique_assoc Json.same_trans (itemsOf x) (itemsOf y) (itemsOf z))

/-- Every policy is associative, whatever values it meets. -/
theorem Policy.combine_assoc (policy : Policy) (x y z : Json) :
    policy.combine (policy.combine x y) z = policy.combine x (policy.combine y z) := by
  cases policy with
  | larger =>
    simp only [combine]
    refine stricter_assoc ?_ ?_ x y z <;>
    · simp only [decide_eq_true_eq, decide_eq_false_iff_not]
      omega
  | smaller =>
    simp only [combine]
    refine stricter_assoc ?_ ?_ x y z <;>
    · simp only [decide_eq_true_eq, decide_eq_false_iff_not]
      omega
  | either => simp [combine, isTrue, Json.asBool?, Bool.or_assoc]
  | joined => exact joinItems_assoc x y z
  | newer => rfl

theorem combine?_assoc (name : String) (x y z : Option Json) :
    combine? name (combine? name x y) z = combine? name x (combine? name y z) := by
  cases x with
  | none => rfl
  | some x =>
    cases y with
    | none => cases z <;> rfl
    | some y =>
      cases z with
      | none => rfl
      | some z => exact congrArg some ((policyOf name).combine_assoc x y z)

/-! ### Metadata as a whole -/

theorem merge_assoc (a b c : Metadata) : merge (merge a b) c = merge a (merge b c) := by
  refine Dict.ext_get? fun name => ?_
  simp only [get?_merge, combine?_assoc]

theorem merge_empty (a : Metadata) : merge a ∅ = a := rfl

theorem empty_merge (a : Metadata) : merge ∅ a = a := by
  refine Dict.ext_get? fun name => ?_
  rw [get?_merge, Dict.get?_empty]
  rfl

/-- Metadata that is merged one after the other is merged as a whole. -/
theorem foldl_merge (start : Metadata) (maps : List Metadata) :
    maps.foldl merge start = merge start (mergeAll maps) := by
  induction maps generalizing start with
  | nil => rfl
  | cons m rest ih =>
    rw [mergeAll, List.foldl_cons, List.foldl_cons, ih, ih (merge ∅ m), empty_merge, merge_assoc]

theorem mergeAll_append (ms ns : List Metadata) :
    mergeAll (ms ++ ns) = merge (mergeAll ms) (mergeAll ns) := by
  rw [mergeAll, List.foldl_append, foldl_merge]
  rfl

theorem mergeAll_map_mergeAll (groups : List (List Metadata)) :
    mergeAll (groups.map mergeAll) = mergeAll groups.flatten := by
  induction groups with
  | nil => rfl
  | cons group rest ih =>
    have hsplit := mergeAll_append [mergeAll group] (rest.map mergeAll)
    rw [List.map_cons, List.flatten_cons, mergeAll_append, ← ih]
    rw [List.singleton_append] at hsplit
    rw [hsplit, mergeAll, List.foldl_cons, List.foldl_nil, empty_merge]

end Metadata

/-! ### Metadata of a component -/

namespace Plugins

section

variable {α : Type} {find : α → StateM Plugins (Option Metadata)}

/-- Merges in what is found for items, as far as anything is. -/
def mergeFound (find : α → StateM Plugins (Option Metadata)) :
    Metadata → List α → StateM Plugins Metadata
  | m, [] => pure m
  | m, a :: rest => do
    let found ← find a
    mergeFound find ((found.map m.merge).getD m) rest

/-- What is found may be merged apart and then as a whole. -/
theorem mergeFound_eq (m : Metadata) (items : List α) :
    mergeFound find m items = m.merge <$> mergeFound find ∅ items := by
  -- Over any metadata to merge into, since every item leads to another one.
  induction items generalizing m with
  | nil => rfl
  | cons a rest ih =>
    rw [mergeFound, mergeFound, map_bind]
    refine bind_congr fun found => ?_
    rw [ih, ih ((found.map (Metadata.merge ∅)).getD ∅), Functor.map_map]
    refine congrArg (· <$> mergeFound find ∅ rest) (funext fun n => ?_)
    cases found with
    | none => exact (congrArg m.merge (Metadata.empty_merge n)).symm
    | some own =>
      show (m.merge own).merge n = m.merge ((Metadata.merge ∅ own).merge n)
      rw [Metadata.empty_merge, Metadata.merge_assoc]

end

/-- The metadata of an entry with the strategy for its key. -/
def metadataFor (transformOne : Strategy → Entry → StateM Plugins (Option Metadata)) (e : Entry) :
    StateM Plugins (Option Metadata) := do
  match ← strategyFor e.key with
  | none => pure none
  | some s => transformOne s e

theorem mergeEntries_eq (transformOne : Strategy → Entry → StateM Plugins (Option Metadata))
    (m : Metadata) (entries : List Entry) :
    mergeEntries transformOne m entries = mergeFound (metadataFor transformOne) m entries := by
  induction entries generalizing m with
  | nil => rfl
  | cons e rest ih =>
    rw [mergeEntries, mergeFound, metadataFor, bind_assoc]
    refine bind_congr fun strategy => ?_
    cases strategy with
    | none => exact ih _
    | some s => exact bind_congr fun found => ih _

/-- Entries that are merged apart are merged into the rest as a whole. -/
theorem mergeEntries_apart (transformOne : Strategy → Entry → StateM Plugins (Option Metadata))
    (m : Metadata) (entries : List Entry) :
    mergeEntries transformOne m entries = m.merge <$> mergeEntries transformOne ∅ entries := by
  rw [mergeEntries_eq, mergeEntries_eq, mergeFound_eq]

variable (env : Environment) (r : Request)

theorem mergeConstraints_eq (d : Details) (binding : Option String) (m : Metadata)
    (constraints : List Constraint) :
    Engine.mergeConstraints env r d binding m constraints
      = mergeFound (fun c => transform env r (.ofConstraint c)
          (Strategy.constraintEntry c d.property binding)) m constraints := by
  induction constraints generalizing m with
  | nil => rfl
  | cons c rest ih => exact bind_congr fun found => ih _

/-- Constraints that are merged apart are merged into the rest as a whole. -/
theorem mergeConstraints_apart (d : Details) (binding : Option String) (m : Metadata)
    (constraints : List Constraint) :
    Engine.mergeConstraints env r d binding m constraints
      = m.merge <$> Engine.mergeConstraints env r d binding ∅ constraints := by
  rw [mergeConstraints_eq, mergeConstraints_eq, mergeFound_eq]

/-- Merges the metadata of an entry into what is there. A join merges in the metadata of what it
borrows, entry by entry. -/
def mergeInPlace (m : Metadata) (e : Entry) : StateM Plugins Metadata := do
  match ← strategyFor e.key with
  | none => pure m
  | some s =>
    match ← transformerFor s with
    | none => pure m
    | some t =>
      match t.conversion, e.joinTargets with
      | .own convert, _ => pure ((convert env r e).toOption.elim m m.merge)
      | .join, .ok targets =>
        mergeEntries (transformLent env r) m (targets.flatMap (Extraction.borrowed env r.page))
      | .join, .error _ => pure m

/-- The metadata of an entry is merged in place as it is apart. -/
theorem mergeInPlace_eq (m : Metadata) (e : Entry) :
    mergeInPlace env r m e
      = (fun found => (found.map m.merge).getD m) <$> metadataFor (transform env r) e := by
  rw [metadataFor, map_bind]
  refine bind_congr fun strategy => ?_
  cases strategy with
  | none => rfl
  | some s =>
    show _ = _ <$> transform env r s e
    rw [transform, transformWith, map_bind]
    refine bind_congr fun transformer => ?_
    cases transformer with
    | none => rfl
    | some t =>
      obtain ⟨name, conversion⟩ := t
      cases conversion with
      | own convert =>
        dsimp only [convertWith]
        cases convert env r e <;> rfl
      | join =>
        dsimp only [convertWith]
        cases e.joinTargets with
        | error fault => rfl
        | ok targets =>
          dsimp only
          rw [mergeEntries_apart _ m]
          rfl

/-- The entries of a property, merged in place. -/
theorem metadataOf_eq (info : PropertyInfo) :
    metadataOf env r info = info.entries.foldlM (mergeInPlace env r) ∅ := by
  suffices h : ∀ (entries : List Entry) (m : Metadata),
      entries.foldlM (mergeInPlace env r) m
        = mergeFound (metadataFor (transform env r)) m entries by
    rw [metadataOf, mergeEntries_eq, h]
  intro entries
  induction entries with
  | nil => exact fun m => rfl
  | cons e rest ih =>
    intro m
    rw [List.foldlM_cons, mergeInPlace_eq, mergeFound, bind_map_left]
    exact bind_congr fun found => ih _

end Plugins

namespace Engine

/-- Configures a component with its metadata merged in one sequence: into the metadata of the
entries, with those that joins borrow among them, goes that of the constraints, one by one. -/
def configureInPlace (e : Engine) (c : Component) (b : Bound) :
    StateM Session (Metadata × Component) := do
  let r ← Session.current
  let own ← Session.lookup (b.info.entries.foldlM (Plugins.mergeInPlace e.env r) ∅)
  let groups ← Session.run (Groups.resolve e.env c.identity b.details false)
  let r ← Session.current
  let metadata ← Session.lookup (mergeConstraints e.env r b.details c.valueBinding own
    (activeConstraints e.env b.owner.typeName b.details.property groups))
  Session.setStage c.clientId .configured
  pure (metadata, Initializer.configureAll e.initializers metadata c)

theorem configure_eq (e : Engine) (c : Component) (b : Bound) :
    e.configure c b = e.configureInPlace c b := by
  rw [configure, configureInPlace]
  refine bind_congr fun r => ?_
  rw [Plugins.metadataOf_eq]
  refine bind_congr fun own => ?_
  rw [constraintMetadata, bind_assoc]
  refine bind_congr fun groups => ?_
  rw [bind_assoc]
  refine bind_congr fun r => ?_
  rw [Plugins.mergeConstraints_apart _ _ _ _ own]
  rfl

end Engine

namespace Metadata

/-- Merging metadata is associative, on all values, and the empty metadata changes nothing on
either side. So metadata may be merged in any grouping. What is merged apart for a join or for
the constraints of the constraint engine gives the metadata that one sequence of mergers gives,
and the component is configured as it is with that. -/
theorem merge_in_any_grouping :
    (∀ a b c : Metadata, merge (merge a b) c = merge a (merge b c)) ∧
    (∀ a : Metadata, merge a ∅ = a ∧ merge ∅ a = a) ∧
    (∀ groups : List (List Metadata), mergeAll (groups.map mergeAll) = mergeAll groups.flatten) ∧
    (∀ (env : Environment) (r : Request) (info : PropertyInfo),
      Plugins.metadataOf env r info
        = info.entries.foldlM (Plugins.mergeInPlace env r) ∅) ∧
    ∀ (e : Engine) (c : Component) (b : Engine.Bound),
      e.configure c b = e.configureInPlace c b := by
  refine ⟨merge_assoc, ?_, mergeAll_map_mergeAll, Plugins.metadataOf_eq, Engine.configure_eq⟩
  intro a
  exact ⟨merge_empty a, empty_merge a⟩

end Metadata

end FieldGuard
