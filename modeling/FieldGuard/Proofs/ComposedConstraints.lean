import FieldGuard.Constraints.Engine
import FieldGuard.Proofs.MergeLaws

/-!
# `FieldGuard.Proofs.ComposedConstraints`: a constraint and all it is composed with

A constraint may be composed with others, and these with further ones, to any depth. Two walks go
over such a tree. A check concatenates what it finds in every part. The metadata is built in one
accumulator, into which every part merges its own. Both come to the parts in the same order, the
constraint before those it is composed with, and take each part by itself. So neither depends on
anything but the sequence of the parts, and a part does not get lost by standing further down.

For the metadata there is more to that than the sequence, since what is merged in later might
replace it. The values that rules put into metadata are such that their mergers absorb them
(`Policy.combine_absorb`): whatever is merged in later, merging the own metadata of a part in once
more changes nothing.

* `Constraint.PartOf`, `Constraint.mem_parts_iff`: what stands in the tree, at any depth;
* `Constraint.check_eq`, `Metadata.ofConstraint_eq_mergeAll`: each walk as one pass over the parts;
* `Metadata.merge_mergeAll_of_mem`: merged metadata has absorbed all that has been merged;
* `composed_part_by_part`: what follows for checks and metadata.
-/

set_option autoImplicit false

namespace FieldGuard

namespace Constraint

/-! ### Parts -/

/-- The constraint without those it is composed with. -/
def alone (c : Constraint) : Constraint :=
  { c with composing := [] }

/-- The first constraint is the second one, or stands somewhere among those that the second one is
composed with. -/
inductive PartOf : Constraint → Constraint → Prop where
  | self (c : Constraint) : PartOf c c
  | composing {p d c : Constraint} : d ∈ c.composing → PartOf p d → PartOf p c

theorem partsOfAll_eq (cs : List Constraint) : partsOfAll cs = cs.flatMap parts := by
  induction cs with
  | nil => rfl
  | cons c rest ih => rw [partsOfAll, ih, List.flatMap_cons]

/-- A constraint comes before the parts of those it is composed with. -/
theorem parts_eq (c : Constraint) : c.parts = c :: c.composing.flatMap parts := by
  obtain ⟨rule, groups, message, composing⟩ := c
  rw [parts, partsOfAll_eq]

theorem parts_alone (c : Constraint) : c.alone.parts = [c.alone] := by
  rw [parts_eq]
  rfl

mutual

theorem partOf_of_mem_parts {p : Constraint} (c : Constraint) (h : p ∈ c.parts) :
    p.PartOf c := by
  obtain ⟨rule, groups, message, composing⟩ := c
  rw [parts] at h
  rcases List.mem_cons.1 h with rfl | h
  · exact .self _
  · obtain ⟨d, hd, hp⟩ := exists_of_mem_partsOfAll composing h
    exact .composing hd hp

theorem exists_of_mem_partsOfAll {p : Constraint} (cs : List Constraint)
    (h : p ∈ partsOfAll cs) : ∃ d ∈ cs, p.PartOf d := by
  cases cs with
  | nil => simp [partsOfAll] at h
  | cons c rest =>
    rw [partsOfAll, List.mem_append] at h
    rcases h with h | h
    · exact ⟨c, List.mem_cons_self, partOf_of_mem_parts c h⟩
    · obtain ⟨d, hd, hp⟩ := exists_of_mem_partsOfAll rest h
      exact ⟨d, List.mem_cons_of_mem c hd, hp⟩

end

/-- The parts are what stands in the tree, at any depth. -/
theorem mem_parts_iff {p c : Constraint} : p ∈ c.parts ↔ p.PartOf c := by
  constructor
  · exact partOf_of_mem_parts c
  · intro h
    induction h with
    | self =>
      rw [parts_eq]
      exact List.mem_cons_self
    | composing hd _ ih =>
      rw [parts_eq]
      exact List.mem_cons_of_mem _ (List.mem_flatMap.2 ⟨_, hd, ih⟩)

/-! ### Checks -/

/-- A check yields the messages of the parts whose own rules are violated, in their order. -/
theorem check_eq (c : Constraint) (value : Value) :
    c.check value = (c.parts.filter fun p => p.rule.isViolatedBy value).map wording := by
  rw [check, breaches_eq_parts, ownBreaches, List.map_map]
  rfl

/-- The same, with every part taken by itself. -/
theorem check_eq_alone (c : Constraint) (value : Value) :
    c.check value
      = ((c.parts.map alone).filter fun p => p.rule.isViolatedBy value).map wording := by
  rw [check_eq, List.filter_map, List.map_map]
  rfl

end Constraint

namespace Metadata

/-! ### Values that are not lost in mergers -/

/-- The value is one that the policy can weigh against others. No value is safe from newer ones. -/
def Policy.Weighs : Policy → Json → Prop
  | .larger, value => value.asFloat?.isSome = true
  | .smaller, value => value.asFloat?.isSome = true
  | .either, value => ∃ b, value = .bool b
  | .joined, value => ∃ items, value = .strings items
  | .newer, _ => False

/-- Of two bounds the stricter one stays the stricter one beside the first. -/
theorem stricter_absorb {keeps : Int → Int → Bool}
    (htotal : ∀ {a b}, keeps a b = false → keeps b a = true) {x : Json}
    (hx : x.asFloat?.isSome = true) (y : Json) :
    stricter keeps (stricter keeps x y) x = stricter keeps x y := by
  obtain ⟨a, ha⟩ := Option.isSome_iff_exists.1 hx
  cases hy : y.asFloat? with
  | none => simp [stricter, ha, hy]
  | some b =>
    cases hab : keeps (Number.orderKey a) (Number.orderKey b) with
    | true => simp [stricter, ha, hy, hab]
    | false =>
      have hba := htotal hab
      simp [stricter, ha, hy, hab, hba]

theorem stricter_self (keeps : Int → Int → Bool) (x : Json) : stricter keeps x x = x := by
  unfold stricter
  cases x.asFloat? <;> simp

/-- Items that are there are not added again. -/
theorem foldl_addUnique_of_contains {items more : List Json}
    (h : ∀ item ∈ more, items.contains item = true) : more.foldl addUnique items = items := by
  induction more with
  | nil => rfl
  | cons item rest ih =>
    obtain ⟨hitem, hrest⟩ := List.forall_mem_cons.1 h
    rw [List.foldl_cons, addUnique, if_pos hitem, ih hrest]

theorem contains_strings {items : List String} {item : Json}
    (h : item ∈ items.map Json.string) : (items.map Json.string).contains item = true := by
  obtain ⟨s, hs, rfl⟩ := List.mem_map.1 h
  refine List.contains_iff_exists_mem_beq.2 ⟨.string s, h, ?_⟩
  show Json.same (.string s) (.string s) = true
  simp [Json.same]

/-- What has been merged absorbs a value that the policy can weigh. -/
theorem Policy.combine_absorb {policy : Policy} {x : Json} (h : policy.Weighs x) (y : Json) :
    policy.combine (policy.combine x y) x = policy.combine x y := by
  cases policy with
  | larger =>
    simp only [combine]
    refine stricter_absorb (fun {a b} hab => ?_) h y
    simp only [decide_eq_false_iff_not, decide_eq_true_eq] at hab ⊢
    omega
  | smaller =>
    simp only [combine]
    refine stricter_absorb (fun {a b} hab => ?_) h y
    simp only [decide_eq_false_iff_not, decide_eq_true_eq] at hab ⊢
    omega
  | either =>
    obtain ⟨b, rfl⟩ := h
    cases b <;> simp [combine, isTrue, Json.asBool?]
  | joined =>
    obtain ⟨items, rfl⟩ := h
    refine congrArg Json.array (foldl_addUnique_of_contains fun item hitem => ?_)
    exact contains_foldl_addUnique (contains_strings hitem) (itemsOf y)
  | newer => exact h.elim

theorem Policy.combine_self {policy : Policy} {x : Json} (h : policy.Weighs x) :
    policy.combine x x = x := by
  cases policy with
  | larger =>
    simp only [combine]
    exact stricter_self _ x
  | smaller =>
    simp only [combine]
    exact stricter_self _ x
  | either =>
    obtain ⟨b, rfl⟩ := h
    cases b <;> rfl
  | joined =>
    obtain ⟨items, rfl⟩ := h
    exact congrArg Json.array (foldl_addUnique_of_contains fun item => contains_strings)
  | newer => exact h.elim

/-- All values of the metadata are such that their policies can weigh them. -/
def Weighed (m : Metadata) : Prop :=
  ∀ name value, m.get? name = some value → (policyOf name).Weighs value

/-- Merged metadata absorbs what it has begun with. -/
theorem merge_absorb {m : Metadata} (h : m.Weighed) (n : Metadata) :
    merge (merge m n) m = merge m n := by
  refine Dict.ext_get? fun name => ?_
  simp only [get?_merge]
  cases hm : m.get? name with
  | none => cases n.get? name <;> rfl
  | some x =>
    cases n.get? name with
    | none => exact congrArg some (Policy.combine_self (h name x hm))
    | some y => exact congrArg some (Policy.combine_absorb (h name x hm) y)

/-- Merged metadata has absorbed all that has been merged. -/
theorem merge_mergeAll_of_mem {maps : List Metadata} {m : Metadata} (hm : m ∈ maps)
    (h : m.Weighed) : merge (mergeAll maps) m = mergeAll maps := by
  obtain ⟨before, after, rfl⟩ := List.append_of_mem hm
  have hsplit : mergeAll (before ++ m :: after)
      = merge (mergeAll before) (merge m (mergeAll after)) := by
    rw [List.append_cons, mergeAll_append, mergeAll_snoc, merge_assoc]
  rw [hsplit, merge_assoc, merge_absorb h]

/-! ### Metadata of constraints -/

theorem mem_of_mem_foldl_insert {pair : String × Json} {pairs start : List (String × Json)}
    (h : pair ∈ pairs.foldl (fun sorted new => Keyed.insert new.1 new.2 sorted) start) :
    pair ∈ start ∨ pair ∈ pairs := by
  induction pairs generalizing start with
  | nil => exact .inl h
  | cons first rest ih =>
    rcases ih h with hstart | hrest
    · rcases Keyed.mem_insert hstart with rfl | hstart
      · exact .inr List.mem_cons_self
      · exact .inl hstart
    · exact .inr (List.mem_cons_of_mem first hrest)

theorem weighed_of {values : List (String × Json)}
    (h : ∀ pair ∈ values, (policyOf pair.1).Weighs pair.2) : (of values).Weighed := by
  intro name value hvalue
  have hmem : (name, value) ∈ Keyed.ofList values := Keyed.mem_of_find?_eq_some hvalue
  rcases mem_of_mem_foldl_insert hmem with hnil | hmem
  · exact absurd hnil List.not_mem_nil
  · exact h (name, value) hmem

theorem weighs_only {name : String} {value : Json} (h : (policyOf name).Weighs value)
    (condition : Bool) : ∀ pair ∈ only condition name value, (policyOf pair.1).Weighs pair.2 := by
  intro pair hpair
  unfold only at hpair
  split at hpair
  · rw [List.mem_singleton.1 hpair]
    exact h
  · cases hpair

/-- Rules put limits into the metadata as numbers, expressions as lists, and the rest as flags. -/
theorem weighed_ofRule (rule : Rule) : (ofRule rule).Weighed := by
  cases rule with
  | notNull => exact weighed_of (List.forall_mem_singleton.2 ⟨true, rfl⟩)
  | size least most =>
    have hmost : (policyOf maxLength).Weighs (.ofUInt64 most) := rfl
    have hflag : (policyOf weakRequired).Weighs (.bool true) := ⟨true, rfl⟩
    refine weighed_of (List.forall_mem_cons.2 ⟨rfl, List.forall_mem_append.2 ⟨?_, ?_⟩⟩)
    · exact weighs_only hmost _
    · exact weighs_only hflag _
  | min value => exact weighed_of (List.forall_mem_singleton.2 rfl)
  | max value => exact weighed_of (List.forall_mem_singleton.2 rfl)
  | pattern regexp => exact weighed_of (List.forall_mem_singleton.2 ⟨[regexp], rfl⟩)
  | email => exact weighed_of (List.forall_mem_singleton.2 ⟨true, rfl⟩)
  | equal properties => exact weighed_of (by simp)

/-- By itself a constraint has the metadata of its rule. -/
theorem ofConstraint_alone (c : Constraint) : ofConstraint c.alone = ofRule c.rule := by
  rw [ofConstraint_eq, Constraint.parts_alone, addRules, List.foldl_cons, List.foldl_nil]
  exact empty_merge _

/-- The metadata of a constraint is that of its parts by themselves, merged in their order. -/
theorem ofConstraint_eq_mergeAll (c : Constraint) :
    ofConstraint c = mergeAll (c.parts.map fun p => ofConstraint p.alone) := by
  have hown : (fun p : Constraint => ofConstraint p.alone) = fun p => ofRule p.rule :=
    funext ofConstraint_alone
  rw [ofConstraint_eq, addRules, mergeAll, hown, List.foldl_map]

/-- The standard transformer of constraints yields the metadata of the constraint of an entry. -/
theorem convert_constraintEntry {t : Transformer} (ht : t ∈ Transformer.standard)
    (hname : t.name = Transformer.constraintName) (env : Environment) (r : Request)
    (c : Constraint) (property : String) (binding : Option String) (plugins : Plugins) :
    (Plugins.convert env r t (Strategy.constraintEntry c property binding)).run plugins
      = (.ok (ofConstraint c), plugins) := by
  have honly : (Transformer.standard.filter fun t => t.name == Transformer.constraintName)
      = [.ofEntry Transformer.constraintName fun e => e.constraint.map .ofConstraint] := rfl
  have hmem : t ∈ Transformer.standard.filter fun t => t.name == Transformer.constraintName :=
    List.mem_filter.2 ⟨ht, by simpa using hname⟩
  rw [honly] at hmem
  rw [List.mem_singleton.1 hmem]
  cases binding <;> rfl

end Metadata

/-- A constraint is checked and turned into metadata over one tree, part by part. The parts are the
constraint and all it is composed with, at any depth, each before those it is composed with.

* A check yields one message for each part whose own rule the value violates, in this order, and
  nothing else. The metadata, which the standard transformer of constraints yields, is that of the
  parts by themselves, merged in this order.
* So constraints with the same sequence of parts are checked alike and have the same metadata,
  however their parts are nested.
* A part is hidden from neither. If its rule is violated, its message is among those of the check.
  The metadata has absorbed its own: to merge that in once more changes nothing. -/
theorem composed_part_by_part (m : TypeModel) :
    (∀ c : Constraint, c.parts = c :: c.composing.flatMap Constraint.parts ∧
      ∀ p, p ∈ c.parts ↔ p.PartOf c) ∧
    (∀ (c : Constraint) (value : Value), (ConstraintEngine.ofTypes m).check c value
      = (c.parts.filter fun p => p.rule.isViolatedBy value).map Constraint.wording) ∧
    (∀ c : Constraint, Metadata.ofConstraint c
      = Metadata.mergeAll (c.parts.map fun p => Metadata.ofConstraint p.alone)) ∧
    (∀ t ∈ Transformer.standard, t.name = Transformer.constraintName →
      ∀ env r (c : Constraint) property binding plugins,
        (Plugins.convert env r t (Strategy.constraintEntry c property binding)).run plugins
          = (.ok (Metadata.ofConstraint c), plugins)) ∧
    (∀ c d : Constraint, c.parts.map Constraint.alone = d.parts.map Constraint.alone →
      (∀ value, (ConstraintEngine.ofTypes m).check c value
        = (ConstraintEngine.ofTypes m).check d value) ∧
      Metadata.ofConstraint c = Metadata.ofConstraint d) ∧
    ∀ c p : Constraint, p.PartOf c →
      (∀ value, p.rule.isViolatedBy value = true →
        p.wording ∈ (ConstraintEngine.ofTypes m).check c value) ∧
      Metadata.merge (Metadata.ofConstraint c) (Metadata.ofConstraint p.alone)
        = Metadata.ofConstraint c := by
  have hcheck : ∀ (c : Constraint) (value : Value),
      (ConstraintEngine.ofTypes m).check c value = c.check value := fun _ _ => rfl
  refine ⟨?_, ?_, Metadata.ofConstraint_eq_mergeAll, ?_, ?_, ?_⟩
  · intro c
    exact ⟨Constraint.parts_eq c, fun p => Constraint.mem_parts_iff⟩
  · intro c value
    rw [hcheck, Constraint.check_eq]
  · intro t ht hname env r c property binding plugins
    exact Metadata.convert_constraintEntry ht hname env r c property binding plugins
  · intro c d hsame
    constructor
    · intro value
      rw [hcheck, hcheck, Constraint.check_eq_alone, Constraint.check_eq_alone, hsame]
    · -- The metadata of the parts by themselves is a matter of that sequence.
      have hown : ∀ e : Constraint, Metadata.ofConstraint e
          = Metadata.mergeAll ((e.parts.map Constraint.alone).map Metadata.ofConstraint) := by
        intro e
        rw [Metadata.ofConstraint_eq_mergeAll, List.map_map]
        rfl
      rw [hown, hown, hsame]
  · intro c p hp
    have hmem : p ∈ c.parts := Constraint.mem_parts_iff.2 hp
    constructor
    · intro value hviolated
      rw [hcheck, Constraint.check_eq]
      exact List.mem_map.2 ⟨p, List.mem_filter.2 ⟨hmem, hviolated⟩, rfl⟩
    · rw [Metadata.ofConstraint_eq_mergeAll c]
      refine Metadata.merge_mergeAll_of_mem (List.mem_map.2 ⟨p, hmem, rfl⟩) ?_
      rw [Metadata.ofConstraint_alone]
      exact Metadata.weighed_ofRule p.rule

/-! ### One contact in two ways -/

/-- A contact is a mail address of some length; the address stands two levels down. -/
def nestedContact : Constraint where
  rule := .notNull
  composing :=
    [{ rule := .size 6 40, message := some "too short", composing := [{ rule := .email }] }]

/-- The same with all rules side by side. -/
def flatContact : Constraint where
  rule := .notNull
  composing := [{ rule := .size 6 40, message := some "too short" }, { rule := .email }]

/-- Two levels down the address is checked and merged as it is side by side with the length. -/
theorem composed_part_by_part_contact :
    let check := (ConstraintEngine.ofTypes (.ofTypes [])).check
    let address : Constraint := { rule := .email }
    (Transformer.standard.any fun t => t.name == Transformer.constraintName) = true ∧
    nestedContact.parts.map Constraint.alone = flatContact.parts.map Constraint.alone ∧
    check nestedContact (.text "x") = ["too short", "not a well-formed email address"] ∧
    check flatContact (.text "x") = check nestedContact (.text "x") ∧
    Metadata.ofConstraint flatContact = Metadata.ofConstraint nestedContact ∧
    address.PartOf nestedContact ∧ address.rule.isViolatedBy (.text "x") = true ∧
    address.wording ∈ check nestedContact (.text "x") ∧
    (Metadata.ofConstraint nestedContact).merge (Metadata.ofConstraint address.alone)
      = Metadata.ofConstraint nestedContact := by
  obtain ⟨-, -, -, -, hsequence, hpart⟩ := composed_part_by_part (.ofTypes [])
  have hsame : nestedContact.parts.map Constraint.alone = flatContact.parts.map Constraint.alone :=
    rfl
  have haddress : Constraint.PartOf { rule := .email } nestedContact :=
    .composing List.mem_cons_self (.composing List.mem_cons_self (.self _))
  have hviolated : Rule.email.isViolatedBy (.text "x") = true := by decide +kernel
  obtain ⟨hcheck, hmetadata⟩ := hsequence flatContact nestedContact hsame.symm
  obtain ⟨hmessage, habsorbed⟩ := hpart nestedContact _ haddress
  refine ⟨rfl, hsame, ?_, hcheck (.text "x"), hmetadata, haddress, hviolated,
    hmessage (.text "x") hviolated, habsorbed⟩
  decide +kernel

end FieldGuard
