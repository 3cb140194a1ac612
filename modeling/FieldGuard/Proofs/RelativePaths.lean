import FieldGuard.Proofs.LastStep

/-!
# `FieldGuard.Proofs.RelativePaths`: where a relative path starts

A path is resolved relative to a binding: its first name says where it starts, and the names after
it are read from there. The rule is that the path starts at the binding or at one of its bases, the
nearest one of that name (`Binding.anchored`). What is implemented looks at the bases only. If the
first name is that of the binding itself, the path starts at a base of the same name, or else it is
written in place of the last step. The second comes to the same thing if the last step is written
as a name after a dot, and the first never does.

* `Binding.base?_spec`, `Binding.mem_bases_spec`: bases of a well-formed expression are well-formed
  and shorter;
* `Binding.extend_spec`: names that are read from an expression are steps after its own;
* `Binding.resolvePath_eq`: what is implemented, for a path that is given by its names;
* `Binding.resolvePath_anchored_iff`: the steps that a path resolves to, and when the rule is kept;
* `Binding.resolvePath_passes_binding`: a path that starts at a base instead of the binding.
-/

set_option autoImplicit false

namespace FieldGuard

open Text

namespace Text

/-- Names with dots between them are the first name and the others as steps after it. -/
theorem toList_intercalate_dot (first : String) (rest : List String) :
    (".".intercalate (first :: rest)).toList
      = first.toList ++ (rest.map Step.property).flatMap Step.written := by
  induction rest generalizing first with
  | nil => simp
  | cons second rest ih =>
    rw [toList_intercalate_cons, ih]
    rfl

end Text

theorem IsName.dot_not_mem {name : String} (h : IsName name) : '.' ∉ name.toList :=
  fun hdot => (h.plain '.' hdot).2 rfl

theorem Step.isWritable_properties {names : List String} (h : ∀ name ∈ names, IsName name) :
    ∀ s ∈ names.map Step.property, s.IsWritable := by
  intro s hs
  obtain ⟨name, hname, rfl⟩ := List.mem_map.1 hs
  exact h name hname

namespace Binding

theorem wrap_inj {cs ds : List Char} (h : wrap cs = wrap ds) : cs = ds := by
  have hchars : ('#' :: '\x7b' :: (cs ++ ['\x7d'])) = '#' :: '\x7b' :: (ds ++ ['\x7d']) :=
    String.ofList_injective (congrArg text h)
  simpa using hchars

/-! ### Bases -/

/-- The base of a well-formed expression is well-formed and shorter. -/
theorem base?_spec {b base : Binding} (hb : b.isTerm = true) (hbase : b.base? = some base) :
    base.isTerm = true ∧ base.inside.length < b.inside.length := by
  obtain ⟨hsplit, hwrap⟩ := splitLast_of_base? hbase
  refine ⟨?_, length_splitLast_lt hsplit⟩
  rw [hwrap]
  exact isTerm_wrap (isInside_of_splitLast (isInside_inside hb) hsplit)

/-- All bases of a well-formed expression are well-formed and shorter. -/
theorem mem_bases_spec {b base : Binding} (hb : b.isTerm = true) (hbase : base ∈ b.bases) :
    base.isTerm = true ∧ base.inside.length < b.inside.length := by
  -- The bases of the base are those of a shorter expression.
  induction hn : b.inside.length using Nat.strongRecOn generalizing b with
  | ind n ih =>
    subst hn
    rw [bases_eq] at hbase
    split at hbase
    · cases hbase
    · next nearest hnearest =>
      obtain ⟨hterm, hshorter⟩ := base?_spec hb hnearest
      rcases List.mem_cons.1 hbase with rfl | hbase
      · exact ⟨hterm, hshorter⟩
      · obtain ⟨hterm', hshorter'⟩ := ih _ hshorter hterm hbase rfl
        exact ⟨hterm', Nat.lt_trans hshorter' hshorter⟩

/-! ### Reading names from an expression -/

/-- The expression with names read from it, one after the other. -/
def extend (b : Binding) : List String → Binding
  | [] => b
  | first :: rest => b.addProperty (".".intercalate (first :: rest))

theorem extend_cons (b : Binding) (first : String) (rest : List String) :
    b.extend (first :: rest)
      = wrap (b.inside ++ ((first :: rest).map Step.property).flatMap Step.written) := by
  rw [extend, addProperty, dot, toList_intercalate_dot]
  rfl

theorem extend_wrap {cs : List Char} (h : trim cs = cs) (names : List String) :
    (wrap cs).extend names = wrap (cs ++ (names.map Step.property).flatMap Step.written) := by
  cases names with
  | nil => simp [extend]
  | cons first rest => rw [extend_cons, inside_wrap, h]

/-- The names are steps after those of the expression, and what is written is well-formed. -/
theorem extend_spec {b : Binding} (hb : b.isTerm = true) {names : List String}
    (hnames : ∀ name ∈ names, IsName name) :
    (b.extend names).isTerm = true ∧
      (b.extend names).steps = b.steps ++ names.map Step.property := by
  cases names with
  | nil => exact ⟨hb, (List.append_nil _).symm⟩
  | cons first rest =>
    obtain ⟨hinside, hread⟩ :=
      stepsOf_append (isInside_inside hb) (Step.isWritable_properties hnames)
    rw [extend_cons]
    refine ⟨isTerm_wrap hinside, ?_⟩
    rw [steps, inside_wrap, hinside.trimmed, hread, steps]

/-- Of two expressions that are extended in the same way to the same one, the insides agree. -/
theorem inside_of_extend_eq {a b : Binding} {names : List String}
    (h : a.extend names = b.extend names) : a.inside = b.inside := by
  cases names with
  | nil => exact congrArg inside h
  | cons first rest =>
    rw [extend_cons, extend_cons] at h
    exact List.append_cancel_right (wrap_inj h)

/-- Extending looks at the insides only, but an expression that nothing is read from stays as it
is written. -/
theorem extend_eq_iff {a b : Binding} {names : List String} :
    a.extend names = b.extend names ↔ a.inside = b.inside ∧ (names = [] → a = b) := by
  refine ⟨fun h => ⟨inside_of_extend_eq h, fun hnil => by subst hnil; exact h⟩, ?_⟩
  rintro ⟨hinside, hnil⟩
  cases names with
  | nil => exact hnil rfl
  | cons first rest => rw [extend_cons, extend_cons, hinside]

/-! ### Replacing the last step by a path -/

/-- A path in place of the last step is its first name there, with the others read from it. -/
theorem replaceProperty_path {b : Binding} (hb : b.isTerm = true) {first : String}
    (hfirst : IsName first) (rest : List String) :
    b.replaceProperty (".".intercalate (first :: rest))
      = (b.replaceProperty first).extend rest := by
  -- The last step is all there is, or there is a path in front of it.
  obtain ⟨-, hreplace⟩ | ⟨front, hfront, -, hreplace⟩ := lastStep_cases hb
  · rw [hreplace, hreplace, extend_wrap hfirst.trimmed, toList_intercalate_dot]
  · rw [hreplace, hreplace, dot, dot, extend_wrap (isInside_dot hfront hfirst).trimmed,
      toList_intercalate_dot, List.append_assoc, List.cons_append]

/-- What replaces the last step stands alone between delimiters. -/
theorem replaceProperty_eq_wrap {b : Binding} (hb : b.isTerm = true) {name : String}
    (hname : IsName name) : b.replaceProperty name = wrap (b.replaceProperty name).inside := by
  obtain ⟨-, hreplace⟩ | ⟨front, hfront, -, hreplace⟩ := lastStep_cases hb
  · rw [hreplace, inside_wrap, hname.trimmed]
  · rw [hreplace, dot, inside_wrap, (isInside_dot hfront hname).trimmed]

/-- The steps after which a path in place of the last one comes. -/
theorem steps_replaceProperty {b : Binding} (hb : b.isTerm = true) {name : String}
    (hname : IsName name) :
    (b.replaceProperty name).isTerm = true ∧ ∃ front, b.steps = front ++ [b.lastStep] ∧
      (b.replaceProperty name).steps = front ++ [.property name] := by
  obtain ⟨hlast, hreplace⟩ | ⟨front, hfront, hlast, hreplace⟩ := lastStep_cases hb
  · rw [hreplace]
    exact ⟨isTerm_wrap (isInside_of_isName hname), [], hlast, steps_wrap hname⟩
  · rw [hreplace]
    exact ⟨isTerm_wrap (isInside_dot hfront hname), stepsOf front, hlast, steps_dot hfront hname⟩

/-- The last step is written as the name after a dot, or as the name alone, without blanks around
it. -/
def EndsIn (b : Binding) (name : String) : Prop :=
  b.inside = name.toList ∨ ∃ front, IsInside front ∧ b.inside = front ++ '.' :: name.toList

/-- Then, and only then, writing the name in place of the last step leaves the inside as it is. -/
theorem endsIn_iff {b : Binding} (hb : b.isTerm = true) {name : String} (hname : IsName name) :
    b.EndsIn name ↔ (b.replaceProperty name).inside = b.inside := by
  constructor
  · rintro (halone | ⟨front, hfront, hafter⟩)
    · rw [replaceProperty, halone, splitLast_bare hname]
      dsimp only
      rw [inside_wrap, hname.trimmed]
    · have hsplit : splitLast b.inside = (some front, .property name) := by
        rw [hafter]
        exact splitLast_written (s := .property name) hfront hname
      rw [replaceProperty, hsplit]
      dsimp only
      rw [dot, inside_wrap, (isInside_dot hfront hname).trimmed, hafter]
  · intro h
    obtain ⟨-, hreplace⟩ | ⟨front, hfront, -, hreplace⟩ := lastStep_cases hb
    · rw [hreplace, inside_wrap, hname.trimmed] at h
      exact .inl h.symm
    · rw [hreplace, dot, inside_wrap, (isInside_dot hfront hname).trimmed] at h
      exact .inr ⟨front, hfront, h.symm⟩

/-- A name in place of the last step changes nothing, also when more is read from it, just when the
expression ends in that name. An expression that nothing is read from must also be written without
blanks around it. -/
theorem extend_replaceProperty_eq_iff {b : Binding} (hb : b.isTerm = true) {name : String}
    (hname : IsName name) {rest : List String} :
    (b.replaceProperty name).extend rest = b.extend rest ↔
      b.EndsIn name ∧ (rest = [] → b = wrap b.inside) := by
  rw [extend_eq_iff, ← endsIn_iff hb hname]
  refine and_congr_right fun hends => imp_congr_right fun _ => ?_
  -- With the name written back, the binding stands alone between delimiters.
  have hwrap := replaceProperty_eq_wrap hb hname
  rw [(endsIn_iff hb hname).1 hends] at hwrap
  rw [hwrap]
  exact eq_comm

/-! ### Where a path starts -/

/-- The nearest expression of the name among the binding and its bases. -/
def nearest? (b : Binding) (name : String) : Option Binding :=
  (b :: b.bases).find? fun expression => expression.property == name

/-- A path relative to the binding by the rule: it starts at the nearest expression of its first
name among the binding and its bases, and takes the place of the last step if there is none. -/
def anchored (b : Binding) (first : String) (rest : List String) : Binding :=
  match b.nearest? first with
  | some anchor => anchor.extend rest
  | none => b.replaceProperty (".".intercalate (first :: rest))

/-- As implemented, the path starts at the nearest base of its first name. -/
theorem resolvePath_eq (b : Binding) {first : String} (hfirst : '.' ∉ first.toList)
    (rest : List String) :
    b.resolvePath (".".intercalate (first :: rest))
      = match b.bases.find? fun base => base.property == first with
        | some anchor => anchor.extend rest
        | none => b.replaceProperty (".".intercalate (first :: rest)) := by
  cases rest with
  | nil =>
    have hone : ".".intercalate [first] = first := by simp
    rw [hone, resolvePath, cutFirst?_of_not_mem hfirst]
    rfl
  | cons second rest =>
    have hcut : cutFirst? '.' (".".intercalate (first :: second :: rest)).toList
        = some (first.toList, (".".intercalate (second :: rest)).toList) := by
      rw [toList_intercalate_cons]
      exact cutFirst?_append hfirst _
    rw [resolvePath, hcut]
    simp only [String.ofList_toList]
    rfl

section

variable {b : Binding} {first : String} {rest : List String}

theorem anchored_of_property_eq (h : b.property = first) :
    b.anchored first rest = b.extend rest := by
  rw [anchored, nearest?, List.find?_cons_of_pos (by simpa using h)]

/-- Where the binding itself does not have the first name, the rule is what is implemented. -/
theorem resolvePath_eq_anchored (h : b.property ≠ first) (hfirst : IsName first) :
    b.resolvePath (".".intercalate (first :: rest)) = b.anchored first rest := by
  have hpassed : b.nearest? first = b.bases.find? fun base => base.property == first :=
    List.find?_cons_of_neg (by simpa using h)
  rw [resolvePath_eq b hfirst.dot_not_mem, anchored, hpassed]

theorem resolvePath_of_nearest (hfirst : IsName first) {before after : List Binding}
    {anchor : Binding} (hbases : b.bases = before ++ anchor :: after)
    (hbefore : ∀ base ∈ before, base.property ≠ first) (hanchor : anchor.property = first) :
    b.resolvePath (".".intercalate (first :: rest)) = anchor.extend rest := by
  have hfind : b.bases.find? (fun base => base.property == first) = some anchor :=
    List.find?_eq_some_iff_append.2
      ⟨by simpa using hanchor, before, after, hbases, by simpa using hbefore⟩
  rw [resolvePath_eq b hfirst.dot_not_mem, hfind]

theorem resolvePath_of_none (hb : b.isTerm = true) (hfirst : IsName first)
    (hnone : ∀ base ∈ b.bases, base.property ≠ first) :
    b.resolvePath (".".intercalate (first :: rest)) = (b.replaceProperty first).extend rest := by
  have hfind : b.bases.find? (fun base => base.property == first) = none :=
    List.find?_eq_none.2 (by simpa using hnone)
  rw [resolvePath_eq b hfirst.dot_not_mem, hfind]
  exact replaceProperty_path hb hfirst rest

/-- Some base has the name, and then there is a nearest one, or none has it. -/
theorem nearest_cases (b : Binding) (name : String) :
    (∃ before anchor after, b.bases = before ++ anchor :: after ∧
      (∀ base ∈ before, base.property ≠ name) ∧ anchor.property = name) ∨
    ∀ base ∈ b.bases, base.property ≠ name := by
  cases hfind : b.bases.find? fun base => base.property == name with
  | some anchor =>
    obtain ⟨hanchor, before, after, hbases, hbefore⟩ := List.find?_eq_some_iff_append.1 hfind
    exact .inl ⟨before, anchor, after, hbases, by simpa using hbefore, by simpa using hanchor⟩
  | none => exact .inr (by simpa using List.find?_eq_none.1 hfind)

/-- What is read from a base differs from what is read from the binding in the same way. -/
theorem extend_ne_of_mem_bases (hb : b.isTerm = true) {base : Binding} (hbase : base ∈ b.bases) :
    base.extend rest ≠ b.extend rest := by
  intro heq
  have hlength := congrArg List.length (inside_of_extend_eq heq)
  have hshorter := (mem_bases_spec hb hbase).2
  omega

/-- The rule is kept just when the binding itself does not have the first name, or no base has it
either and the binding ends in that name. -/
theorem resolvePath_eq_anchored_iff (hb : b.isTerm = true) (hfirst : IsName first) :
    b.resolvePath (".".intercalate (first :: rest)) = b.anchored first rest ↔
      (b.property = first → (∀ base ∈ b.bases, base.property ≠ first) ∧ b.EndsIn first ∧
        (rest = [] → b = wrap b.inside)) := by
  by_cases hname : b.property = first
  · rw [anchored_of_property_eq hname]
    -- The rule starts at the binding, so a base would be the wrong place.
    obtain ⟨before, anchor, after, hbases, hbefore, hanchor⟩ | hnone := nearest_cases b first
    · have hmem : anchor ∈ b.bases := by simp [hbases]
      rw [resolvePath_of_nearest hfirst hbases hbefore hanchor]
      exact ⟨fun heq => absurd heq (extend_ne_of_mem_bases hb hmem),
        fun hrule => absurd hanchor ((hrule hname).1 anchor hmem)⟩
    · rw [resolvePath_of_none hb hfirst hnone, extend_replaceProperty_eq_iff hb hfirst]
      exact ⟨fun h _ => ⟨hnone, h⟩, fun h => (h hname).2⟩
  · exact ⟨fun _ h => absurd h hname, fun _ => resolvePath_eq_anchored hname hfirst⟩

end

/-- A path relative to a well-formed binding, given by its names.

* What it resolves to is well-formed.
* If a base has the first name, the other names are read from the nearest such base.
* If none has it, the names take the place of the last step.
* That is what the rule says just when the binding itself does not have the first name, or no base
  has it either and the binding ends in that name as it is written. Where the path is that name
  alone, there must also be no blanks around the binding. -/
theorem resolvePath_anchored_iff {b : Binding} (hb : b.isTerm = true) {first : String}
    (hfirst : IsName first) {rest : List String} (hrest : ∀ name ∈ rest, IsName name) :
    let resolved := b.resolvePath (".".intercalate (first :: rest))
    resolved.isTerm = true ∧
    (∀ before anchor after, b.bases = before ++ anchor :: after →
      (∀ base ∈ before, base.property ≠ first) → anchor.property = first →
      resolved = anchor.extend rest ∧
        resolved.steps = anchor.steps ++ rest.map Step.property) ∧
    ((∀ base ∈ b.bases, base.property ≠ first) →
      resolved = b.replaceProperty (".".intercalate (first :: rest)) ∧
        ∃ front, b.steps = front ++ [b.lastStep] ∧
          resolved.steps = front ++ (first :: rest).map Step.property) ∧
    (resolved = b.anchored first rest ↔
      (b.property = first → (∀ base ∈ b.bases, base.property ≠ first) ∧ b.EndsIn first ∧
        (rest = [] → b = wrap b.inside))) := by
  intro resolved
  -- Without a base of that name, the steps are those of the first name in place of the last step,
  -- and then the other names.
  obtain ⟨hreplaced, front, hlast, hfront⟩ := steps_replaceProperty hb hfirst
  obtain ⟨hterm, hsteps⟩ := extend_spec hreplaced hrest
  have hnearest : ∀ before anchor after, b.bases = before ++ anchor :: after →
      (∀ base ∈ before, base.property ≠ first) → anchor.property = first →
      resolved = anchor.extend rest := fun before anchor after hbases hbefore hanchor =>
    resolvePath_of_nearest hfirst hbases hbefore hanchor
  have hnone : (∀ base ∈ b.bases, base.property ≠ first) →
      resolved = (b.replaceProperty first).extend rest := resolvePath_of_none hb hfirst
  have hanchored : ∀ before anchor after, b.bases = before ++ anchor :: after →
      (anchor.extend rest).isTerm = true ∧
        (anchor.extend rest).steps = anchor.steps ++ rest.map Step.property :=
    fun before anchor after hbases => extend_spec (mem_bases_spec hb (by simp [hbases])).1 hrest
  refine ⟨?_, ?_, ?_, resolvePath_eq_anchored_iff hb hfirst⟩
  · obtain ⟨before, anchor, after, hbases, hbefore, hanchor⟩ | habsent := nearest_cases b first
    · rw [hnearest before anchor after hbases hbefore hanchor]
      exact (hanchored before anchor after hbases).1
    · rw [hnone habsent]
      exact hterm
  · intro before anchor after hbases hbefore hanchor
    have heq := hnearest before anchor after hbases hbefore hanchor
    exact ⟨heq, heq ▸ (hanchored before anchor after hbases).2⟩
  · intro habsent
    refine ⟨(hnone habsent).trans (replaceProperty_path hb hfirst rest).symm, front, hlast, ?_⟩
    rw [hnone habsent, hsteps, hfront, List.append_assoc]
    rfl

/-- The person of a person: the path to the name of that person starts at the first one. -/
theorem resolvePath_passes_binding :
    let b : Binding := ⟨"#\x7bperson.person\x7d"⟩
    b.isTerm = true ∧ IsName "person" ∧ IsName "name" ∧ b.property = "person" ∧
    b.anchored "person" ["name"] = ⟨"#\x7bperson.person.name\x7d"⟩ ∧
    b.resolvePath (".".intercalate ["person", "name"]) = ⟨"#\x7bperson.name\x7d"⟩ ∧
    b.resolvePath (".".intercalate ["person", "name"]) ≠ b.anchored "person" ["name"] := by
  decide +kernel

/-- A path from the person to which a password belongs, and one from the password itself, which is
written after a dot. -/
theorem resolvePath_anchored_iff_password :
    let b : Binding := ⟨"#\x7bregistration['person'].password\x7d"⟩
    b.isTerm = true ∧ IsName "person" ∧ IsName "password" ∧ IsName "length" ∧
    (b.resolvePath "person.email").text = "#\x7bregistration['person'].email\x7d" ∧
    (b.resolvePath "person.email").steps
      = [.property "registration", .key "person", .property "email"] ∧
    b.resolvePath "person.email" = b.anchored "person" ["email"] ∧
    b.resolvePath "password.length" = b.anchored "password" ["length"] := by
  intro b
  have hb : b.isTerm = true := by decide
  have hperson : IsName "person" := by decide
  have hpassword : IsName "password" := by decide
  have hlength : ∀ name ∈ ["length"], IsName name := by decide
  have hemail : ∀ name ∈ ["email"], IsName name := by decide
  obtain ⟨-, hnearest, -, hperson'⟩ := resolvePath_anchored_iff hb hperson hemail
  obtain ⟨-, -, -, hpassword'⟩ := resolvePath_anchored_iff hb hpassword hlength
  have hbases : b.bases = [] ++ ⟨"#\x7bregistration['person']\x7d"⟩
      :: [⟨"#\x7bregistration\x7d"⟩] := by decide +kernel
  have hsteps := (hnearest _ _ _ hbases (by simp) (by decide +kernel)).2
  have hends : b.EndsIn "password" :=
    .inr ⟨"registration['person']".toList,
      isInside_inside (b := ⟨"#\x7bregistration['person']\x7d"⟩) (by decide), by decide⟩
  refine ⟨hb, hperson, hpassword, by decide, by decide +kernel, ?_, ?_, ?_⟩
  · exact hsteps.trans (by decide +kernel)
  · exact hperson'.2 fun h => absurd h (by decide +kernel)
  · exact hpassword'.2 fun _ => ⟨by decide +kernel, hends, fun h => by cases h⟩

end Binding

end FieldGuard
