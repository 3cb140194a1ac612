import FieldGuard.Proofs.ControllerPlaces
import FieldGuard.Proofs.LastStep

/-!
# `FieldGuard.Proofs.BoundValues`: what a binding is bound to is what it evaluates to

The details of a binding and its value are found in two ways. Evaluation finds the name of a step
when it comes to it, and it stops at the first null. The details need the names of all steps
first, and then the object in front of the last one. Wherever there are details, both ways lead to
the same value.

The names are all that the details depend on. A path with every name written as a quoted key has
the same details, as long as no name has the quote in it that it would stand in.

* `Evaluation.walk_concat`: one more step is read from where the steps before it lead;
* `Evaluation.follow_keys`: steps lead where their names lead, written as keys;
* `details_agree_with_value`: the comparison as a whole.
-/

set_option autoImplicit false

namespace FieldGuard

namespace Details

/-- The value of the property: null, if there is no object. -/
def value (d : Details) : Value :=
  match d.base with
  | some bean => bean.valueOf d.property
  | none => .null

end Details

namespace Evaluation

variable {scope : Scope} {nested : List Char → Except Fault Value}

/-! ### One more step -/

theorem namesOf_concat {steps : List Step} {last : Step} {names : List String}
    (h : namesOf nested (steps ++ [last]) = .ok names) :
    ∃ front name, namesOf nested steps = .ok front ∧ nameOf nested last = .ok name ∧
      names = front ++ [name] := by
  induction steps generalizing names with
  | nil =>
    obtain ⟨name, hname, h⟩ := ok_of_bind h
    cases h
    exact ⟨[], name, rfl, hname, rfl⟩
  | cons step rest ih =>
    obtain ⟨first, hfirst, h⟩ := ok_of_bind h
    obtain ⟨others, hothers, h⟩ := ok_of_bind h
    obtain ⟨front, name, hfront, hname, rfl⟩ := ih hothers
    cases h
    refine ⟨first :: front, name, ?_, hname, rfl⟩
    rw [namesOf, hfirst, hfront]
    rfl

/-- The last step is read from where the steps before it lead. -/
theorem walk_concat {steps : List Step} {last : Step} {current value : Value} {name : String}
    (hname : nameOf nested last = .ok name) (h : walk nested current steps = .ok value) :
    walk nested current (steps ++ [last]) = walk nested value [last] := by
  induction steps generalizing current with
  | nil =>
    cases h
    rfl
  | cons step rest ih =>
    obtain ⟨first, hfirst, h⟩ := ok_of_bind h
    rw [List.cons_append, walk, hfirst]
    cases current with
    | null =>
      -- From null on the steps are not read.
      cases h
      rw [walk, hname]
      rfl
    | object bean => exact ih h
    | bool _ => cases h
    | integer _ => cases h
    | decimal _ => cases h
    | text _ => cases h

theorem follow_concat {root last : Step} {steps : List Step} {value : Value} {name : String}
    (hname : nameOf nested last = .ok name)
    (h : follow nested scope (root :: steps) = .ok value) :
    follow nested scope (root :: steps ++ [last]) = walk nested value [last] := by
  rw [follow] at h
  rw [List.cons_append, follow]
  split at h
  · cases h
  · exact walk_concat hname h

/-- The property is read from the object of the details. -/
theorem walk_baseValue {last : Step} {d : Details} (hname : nameOf nested last = .ok d.property) :
    walk nested d.baseValue [last] = .ok d.value := by
  obtain ⟨key, base, property⟩ := d
  rw [walk, hname]
  cases base <;> rfl

/-- A well-formed expression that is neither a literal nor a negation is a path. -/
theorem valueOf_path {b : Binding} (hterm : b.isTerm = true) (hoperand : operand? b.inside = none)
    (hliteral : literal? b.inside = none) :
    valueOf scope b.text = follow (evaluate scope) scope b.steps := by
  have hbody : Text.trim b.inside = b.inside := (Binding.isInside_inside hterm).trimmed
  rw [valueOf, if_pos (show isTerm b.text = true from hterm), evaluate_eq, evaluateWith,
    hbody, hoperand]
  dsimp only
  rw [hliteral]
  rfl

/-- A path with details leads to the value of the property. -/
theorem follow_of_details {b : Binding} {d : Details} (h : detailsOf scope b = .ok d) :
    follow (evaluate scope) scope b.steps = .ok d.value := by
  obtain ⟨-, hlength, names, hnames, hfollow, -, hproperty⟩ := detailsOf_eq_ok_iff.1 h
  rcases List.eq_nil_or_concat' b.steps with hnil | ⟨front, last, hsteps⟩
  · simp [hnil] at hlength
  · rw [hsteps] at hnames hfollow hlength
    rw [List.dropLast_concat] at hfollow
    obtain ⟨others, name, -, hname, rfl⟩ := namesOf_concat hnames
    have hlast : d.property = name := by simpa using hproperty
    -- A single name has no details, so there is a root in front of the last step.
    cases front with
    | nil => simp at hlength
    | cons root rest =>
      rw [hsteps, follow_concat hname hfollow]
      exact walk_baseValue (hlast ▸ hname)

/-! ### Names written as keys -/

theorem namesOf_keys (names : List String) :
    namesOf nested (names.map Step.key) = .ok names := by
  induction names with
  | nil => rfl
  | cons name rest ih =>
    rw [List.map_cons, namesOf, ih]
    rfl

theorem namesOf_dropLast {steps : List Step} {names : List String}
    (h : namesOf nested steps = .ok names) : namesOf nested steps.dropLast = .ok names.dropLast := by
  rcases List.eq_nil_or_concat' steps with rfl | ⟨front, last, rfl⟩
  · cases h
    rfl
  · obtain ⟨others, name, hothers, -, rfl⟩ := namesOf_concat h
    rw [List.dropLast_concat, List.dropLast_concat]
    exact hothers

theorem walk_keys {steps : List Step} {names : List String} (h : namesOf nested steps = .ok names)
    (current : Value) : walk nested current steps = walk nested current (names.map Step.key) := by
  induction steps generalizing names current with
  | nil =>
    cases h
    rfl
  | cons step rest ih =>
    obtain ⟨name, hname, h⟩ := ok_of_bind h
    obtain ⟨others, hothers, h⟩ := ok_of_bind h
    cases h
    rw [List.map_cons, walk, walk, hname]
    cases current with
    | object bean => exact ih hothers _
    | _ => rfl

/-- Steps lead to the object in front of the last one as their names do, written as keys. -/
theorem follow_keys {steps : List Step} {names : List String}
    (h : namesOf nested steps = .ok names) (root : Step) :
    follow nested scope (root :: steps).dropLast
      = follow nested scope (root :: names.map Step.key).dropLast := by
  cases steps with
  | nil =>
    cases h
    rfl
  | cons step rest =>
    have hne : names ≠ [] := by
      intro hnil
      have hlength := length_namesOf h
      simp [hnil] at hlength
    have hkeys : names.map Step.key ≠ [] := by simpa using hne
    rw [List.dropLast_cons_of_ne_nil (by simp), List.dropLast_cons_of_ne_nil hkeys, follow, follow,
      ← List.map_dropLast]
    simp only [walk_keys (namesOf_dropLast h)]

/-- A path whose steps are quoted keys is read back as it was written. -/
theorem steps_ofKeys {root : String} (hroot : IsName root) {names : List String}
    (hnames : ∀ name ∈ names, '\'' ∉ name.toList) :
    (Binding.ofPath root (names.map Step.key)).isTerm = true ∧
      (Binding.ofPath root (names.map Step.key)).steps
        = .property root :: names.map Step.key := by
  have hkeys : ∀ s ∈ names.map Step.key, s.IsWritable := by
    intro s hs
    obtain ⟨name, hname, rfl⟩ := List.mem_map.1 hs
    exact hnames name hname
  have hbare : Binding.stepsOf root.toList = [.property root] := by
    rw [Binding.stepsOf_eq, Binding.splitLast_bare hroot]
  obtain ⟨hinside, hread⟩ := Binding.stepsOf_append (Binding.isInside_of_isName hroot) hkeys
  refine ⟨Binding.isTerm_wrap hinside, ?_⟩
  rw [Binding.steps, Binding.ofPath, Binding.inside_wrap, hinside.trimmed, hread, hbare]
  rfl

/-- What a binding is bound to agrees with what it evaluates to. If a well-formed expression that
is neither a literal nor a negation has details, its value is that of the property: null, if there
is no object. And if its root is a name and its steps have names without single quotes, it has
the details that the path with these names as quoted keys has. -/
theorem details_agree_with_value (scope : Scope) {b : Binding} (hterm : b.isTerm = true) :
    (operand? b.inside = none → literal? b.inside = none →
      ∀ d, detailsOf scope b = .ok d → valueOf scope b.text = .ok d.value) ∧
    ∀ root names, IsName root → b.steps.head? = some (.property root) →
      namesOf (evaluate scope) b.steps = .ok (root :: names) →
      (∀ name ∈ names, '\'' ∉ name.toList) →
      ∀ d, detailsOf scope b = .ok d ↔
        detailsOf scope (.ofPath root (names.map Step.key)) = .ok d := by
  refine ⟨fun hoperand hliteral d hd => ?_, fun root names hroot hhead hnames hquotes d => ?_⟩
  · rw [valueOf_path hterm hoperand hliteral]
    exact follow_of_details hd
  · obtain ⟨hterm', hsteps'⟩ := steps_ofKeys hroot hquotes
    obtain ⟨rest, hsteps⟩ := List.head?_eq_some_iff.1 hhead
    -- Both paths have the same names, and lead to the same object in front of the last one.
    have hrest : namesOf (evaluate scope) rest = .ok names := by
      rw [hsteps] at hnames
      obtain ⟨_, hfirst, hnames⟩ := ok_of_bind hnames
      obtain ⟨others, hothers, hnames⟩ := ok_of_bind hnames
      cases hnames
      exact hothers
    have hnames' : namesOf (evaluate scope) (.property root :: names.map Step.key)
        = .ok (root :: names) := by
      rw [namesOf, namesOf_keys]
      rfl
    have hlength : (names.map Step.key).length = rest.length := by
      rw [List.length_map, length_namesOf hrest]
    rw [detailsOf_eq_ok_iff, detailsOf_eq_ok_iff, hterm, hterm', hnames, hsteps', hnames', hsteps,
      follow_keys hrest, List.length_cons, List.length_cons, hlength]

/-! ### A key that is named elsewhere -/

/-- A person with an address. Which line of it is asked for is named elsewhere. -/
def addressScope : Scope :=
  let address := (Record.ofType "Address").put "line.1" (.text "Ring 1")
  .ofList [("person", .object ((Record.ofType "Person").put "address" (.object address))),
    ("line", .text "line.1")]

/-- The line is read from the address, and has the same details when its name is written out. -/
theorem details_agree_with_value_line :
    let b : Binding := ⟨"#\x7bperson.address[ line ]\x7d"⟩
    let written := Binding.ofPath "person" [.key "address", .key "line.1"]
    b.isTerm = true ∧ b.steps = [.property "person", .property "address", .dynamic "line"] ∧
    written.text = "#\x7bperson['address']['line.1']\x7d" ∧
    (∃ d, detailsOf addressScope b = .ok d ∧ d.key = "person.address.line.1" ∧
      valueOf addressScope b.text = .ok d.value ∧ d.value.asText? = some "Ring 1") ∧
    ∀ d, detailsOf addressScope b = .ok d ↔ detailsOf addressScope written = .ok d := by
  intro b written
  have hterm : b.isTerm = true := by decide
  have hsteps : b.steps = [.property "person", .property "address", .dynamic "line"] := by
    decide +kernel
  have hnames : namesOf (evaluate addressScope) b.steps = .ok ["person", "address", "line.1"] := by
    decide +kernel
  obtain ⟨hvalue, hwritten⟩ := details_agree_with_value addressScope hterm
  refine ⟨hterm, hsteps, by decide, ?_, ?_⟩
  · have hread : (detailsOf addressScope b).toOption.map (fun d => (d.key, d.value.asText?))
        = some ("person.address.line.1", some "Ring 1") := by decide +kernel
    cases hd : detailsOf addressScope b with
    | error fault => simp [hd, Except.toOption] at hread
    | ok d =>
      rw [hd] at hread
      obtain ⟨hkey, htext⟩ := Prod.mk.inj (Option.some.inj hread)
      exact ⟨d, rfl, hkey, hvalue (by decide +kernel) (by decide +kernel) d hd, htext⟩
  · exact hwritten "person" ["address", "line.1"] (by decide) (by rw [hsteps]; rfl) hnames
      (by decide)

end Evaluation

end FieldGuard
