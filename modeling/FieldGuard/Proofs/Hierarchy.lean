import FieldGuard.TypeModel.Hierarchy
import Mathlib.Data.List.Nodup
import Mathlib.Data.List.Perm.Subperm
import Mathlib.Logic.Relation

/-!
# `FieldGuard.Proofs.Hierarchy`: what the walk over supertypes lists

`closeUnder` works through a list of names and `climb` follows the superclass
links; both share one list of what is listed so far. This module says what the
walk lists, without the walk: `Implements` is one interface link, `Inherits` one
or more of them, and `ClassWalk` the classes that a name leads to.

* `closeUnder_closes`: the worklist adds exactly what was not listed and what the
  names lead to, and leaves no interface of it unlisted;
* `isListed_of_inherits`: a list that is closed under interface links holds
  everything that its types inherit;
* `climb_covers`: what the class loop keeps, level by level;
* `hierarchy_lists_walk`: the walk as a whole, over any model in which every type
  is found under its own name, cycles and unknown names included.
-/

set_option autoImplicit false

namespace FieldGuard.TypeModel

/-- Every type is found under the name it carries. -/
def WellNamed (m : TypeModel) : Prop :=
  ∀ name t, m.get? name = some t → t.name = name

/-- One interface link: the type found under the first name lists the second name
among its interfaces. -/
def Implements (m : TypeModel) (a b : String) : Prop :=
  ∃ t, m.get? a = some t ∧ b ∈ t.interfaces

/-- One or more interface links. -/
def Inherits (m : TypeModel) (a b : String) : Prop :=
  Relation.TransGen m.Implements a b

/-- The classes that a name leads to by superclass links, given the earlier ones.
The walk stops before the root type, before a name without a type, and before a
type that is an earlier class or is inherited by one. -/
inductive ClassWalk (m : TypeModel) : List String → Option String → List String → Prop where
  | top (earlier : List String) : ClassWalk m earlier none []
  | stop {earlier : List String} {name : String}
      (h : name = rootType ∨ m.get? name = none ∨ name ∈ earlier ∨
        ∃ c ∈ earlier, m.Inherits c name) :
      ClassWalk m earlier (some name) []
  | climb {earlier : List String} {name : String} {t : TypeDecl} {rest : List String}
      (hroot : name ≠ rootType) (hget : m.get? name = some t) (hnew : name ∉ earlier)
      (hover : ∀ c ∈ earlier, ¬ m.Inherits c name)
      (habove : ClassWalk m (earlier ++ [name]) t.superclass rest) :
      ClassWalk m earlier (some name) (name :: rest)

/-- There is only one walk from a name. -/
theorem ClassWalk.unique {m : TypeModel} {earlier : List String} {next : Option String}
    {xs ys : List String} (hx : m.ClassWalk earlier next xs) (hy : m.ClassWalk earlier next ys) :
    xs = ys := by
  induction hx generalizing ys with
  | top earlier => cases hy; rfl
  | stop h =>
    cases hy with
    | stop _ => rfl
    | climb hroot hget hnew hover _ =>
      rcases h with h | h | h | ⟨c, hc, h⟩
      · exact absurd h hroot
      · simp [h] at hget
      · exact absurd h hnew
      · exact absurd h (hover c hc)
  | climb hroot hget hnew hover _ ih =>
    cases hy with
    | stop h =>
      rcases h with h | h | h | ⟨c, hc, h⟩
      · exact absurd h hroot
      · simp [h] at hget
      · exact absurd h hnew
      · exact absurd h (hover c hc)
    | climb _ hget' _ _ habove =>
      rw [hget] at hget'
      cases hget'
      rw [ih habove]

/-! ### Lists of types -/

theorem isListed_iff {listed : List TypeDecl} {name : String} :
    isListed listed name = true ↔ ∃ t ∈ listed, t.name = name := by
  simp [isListed]

theorem unlisted_iff {listed : List TypeDecl} {name : String} :
    isListed listed name = false ↔ name ∉ listed.map (·.name) := by
  simp [isListed]

/-- A type that is not listed yet keeps the names distinct. -/
theorem nodup_concat {listed : List TypeDecl} {t : TypeDecl} (h : (listed.map (·.name)).Nodup)
    (hl : ¬ isListed listed t.name = true) : ((listed ++ [t]).map (·.name)).Nodup := by
  have hnew : t.name ∉ listed.map (·.name) := unlisted_iff.1 (by simpa using hl)
  simpa [List.concat_eq_append] using h.concat hnew

/-- Interfaces are listed under new names only, in any model. -/
theorem nodup_closeUnder (m : TypeModel) (names : List String) {listed : List TypeDecl}
    (h : (listed.map (·.name)).Nodup) : ((m.closeUnder names listed).map (·.name)).Nodup := by
  fun_induction closeUnder m names listed with
  | case1 listed => exact h
  | case2 listed name rest hget ih => exact ih h
  | case3 listed name rest t hget hl ih => exact ih h
  | case4 listed name rest t hget hl ih => exact ih (nodup_concat h hl)

/-- No name is listed twice, in any model. -/
theorem nodup_hierarchy (m : TypeModel) (name : String) :
    ((m.hierarchy name).map (·.name)).Nodup := by
  suffices h : ∀ listed : List TypeDecl, (listed.map (·.name)).Nodup →
      ((m.climb name listed).map (·.name)).Nodup from h [] List.nodup_nil
  intro listed h
  have hlevel : ∀ {listed : List TypeDecl} {t : TypeDecl}, (listed.map (·.name)).Nodup →
      ¬ isListed listed t.name = true →
      ((m.closeUnder t.interfaces (listed ++ [t])).map (·.name)).Nodup :=
    fun h hl => nodup_closeUnder m _ (nodup_concat h hl)
  fun_induction climb m name listed with
  | case1 listed => exact h
  | case2 name listed hroot hget => exact h
  | case3 name listed hroot t hget hl => exact h
  | case4 name listed hroot t hget hl hsuper => exact hlevel h hl
  | case5 name listed hroot t hget hl above hsuper ih => exact ih (hlevel h hl)

theorem not_mem_of_unlisted {listed : List TypeDecl} {t : TypeDecl}
    (h : isListed listed t.name = false) : t ∉ listed :=
  fun ht => unlisted_iff.1 h (List.mem_map.2 ⟨t, ht, rfl⟩)

/-- Every listed type is the one found under its name. -/
def AllFound (m : TypeModel) (listed : List TypeDecl) : Prop :=
  ∀ t ∈ listed, m.get? t.name = some t

/-- Every interface of a listed type is listed, as far as a type is found under it. -/
def ClosedIn (m : TypeModel) (listed : List TypeDecl) (all : List TypeDecl) : Prop :=
  ∀ t ∈ listed, ∀ name ∈ t.interfaces, (m.get? name).isSome → isListed all name = true

theorem mem_of_isListed {m : TypeModel} {listed : List TypeDecl} (hfound : m.AllFound listed)
    {t : TypeDecl} (ht : m.get? t.name = some t) (h : isListed listed t.name = true) :
    t ∈ listed := by
  obtain ⟨u, hu, hname⟩ := isListed_iff.1 h
  have hut : m.get? t.name = some u := hname ▸ hfound u hu
  rw [ht] at hut
  cases hut
  exact hu

theorem AllFound.append {m : TypeModel} {xs ys : List TypeDecl} (hx : m.AllFound xs)
    (hy : m.AllFound ys) : m.AllFound (xs ++ ys) := by
  intro t ht
  rcases List.mem_append.1 ht with h | h
  · exact hx t h
  · exact hy t h

/-- A list that is closed under interface links holds everything that its types inherit. -/
theorem isListed_of_inherits {m : TypeModel} {listed : List TypeDecl} (hfound : m.AllFound listed)
    (hclosed : m.ClosedIn listed listed) {a b : String} (ha : isListed listed a = true)
    (hab : m.Inherits a b) (hb : (m.get? b).isSome) : isListed listed b = true := by
  have hstep : ∀ {c d : String}, isListed listed c = true → m.Implements c d →
      (m.get? d).isSome → isListed listed d = true := by
    intro c d hc hcd hd
    obtain ⟨t, ht, hmem⟩ := hcd
    obtain ⟨u, hu, rfl⟩ := isListed_iff.1 hc
    have hut := hfound u hu
    rw [ht] at hut
    cases hut
    exact hclosed t hu d hmem hd
  -- A name in the middle of the links has a type, so the step applies to it too.
  induction hab with
  | single hlink => exact hstep ha hlink hb
  | tail _ hlink ih =>
    obtain ⟨t, ht, _⟩ := id hlink
    exact hstep (ih (by simp [ht])) hlink hb

/-! ### The worklist -/

/-- What working through names adds to a list: types that were not listed, each
once, that the names lead to; afterwards neither a name of the worklist nor an
interface of an added type is left out. -/
structure Closes (m : TypeModel) (names : List String) (listed more : List TypeDecl) : Prop where
  found : m.AllFound more
  unlisted : ∀ t ∈ more, isListed listed t.name = false
  nodup : (more.map (·.name)).Nodup
  reached : ∀ t ∈ more, ∃ n ∈ names, Relation.ReflTransGen m.Implements n t.name
  covered : ∀ n ∈ names, (m.get? n).isSome → isListed (listed ++ more) n = true
  closed : m.ClosedIn more (listed ++ more)

theorem closes_nil (m : TypeModel) (listed : List TypeDecl) : m.Closes [] listed [] where
  found := by simp [AllFound]
  unlisted := by simp
  nodup := by simp
  reached := by simp
  covered := by simp
  closed := by simp [ClosedIn]

/-- A name without a type, or of one that is listed, is passed over. -/
theorem Closes.skip {m : TypeModel} {name : String} {rest : List String}
    {listed more : List TypeDecl} (h : m.Closes rest listed more)
    (hname : (m.get? name).isSome → isListed listed name = true) :
    m.Closes (name :: rest) listed more where
  found := h.found
  unlisted := h.unlisted
  nodup := h.nodup
  reached t ht := by
    obtain ⟨n, hn, hpath⟩ := h.reached t ht
    exact ⟨n, List.mem_cons_of_mem _ hn, hpath⟩
  covered n hn hsome := by
    rcases List.mem_cons.1 hn with rfl | hn
    · rw [isListed_append, hname hsome, Bool.true_or]
    · exact h.covered n hn hsome
  closed := h.closed

/-- A type that is not listed is added, and its interfaces join the worklist. -/
theorem Closes.list {m : TypeModel} {t : TypeDecl} {rest : List String}
    {listed more : List TypeDecl} (h : m.Closes (t.interfaces ++ rest) (listed ++ [t]) more)
    (hget : m.get? t.name = some t) (hnew : isListed listed t.name = false) :
    m.Closes (t.name :: rest) listed (t :: more) := by
  have hsplit : listed ++ t :: more = (listed ++ [t]) ++ more := by simp
  refine ⟨?_, ?_, ?_, ?_, ?_, ?_⟩
  · intro u hu
    rcases List.mem_cons.1 hu with rfl | hu
    · exact hget
    · exact h.found u hu
  · intro u hu
    rcases List.mem_cons.1 hu with rfl | hu
    · exact hnew
    · have hu' := h.unlisted u hu
      rw [isListed_append, Bool.or_eq_false_iff] at hu'
      exact hu'.1
  · rw [List.map_cons, List.nodup_cons]
    refine ⟨fun hmem => ?_, h.nodup⟩
    -- The worklist starts with the type itself listed, so it is not added again.
    obtain ⟨u, hu, hname⟩ := List.mem_map.1 hmem
    have hu' := h.unlisted u hu
    simp [isListed, hname] at hu'
  · intro u hu
    rcases List.mem_cons.1 hu with rfl | hu
    · exact ⟨u.name, List.mem_cons_self, .refl⟩
    · -- Reached from an interface of the type, or from another name of the worklist.
      obtain ⟨n, hn, hpath⟩ := h.reached u hu
      rcases List.mem_append.1 hn with hn | hn
      · exact ⟨t.name, List.mem_cons_self, .head ⟨t, hget, hn⟩ hpath⟩
      · exact ⟨n, List.mem_cons_of_mem _ hn, hpath⟩
  · intro n hn hsome
    rw [hsplit]
    rcases List.mem_cons.1 hn with rfl | hn
    · rw [isListed_append, isListed_append]
      simp [isListed]
    · exact h.covered n (List.mem_append_right _ hn) hsome
  · intro u hu n hn hsome
    rw [hsplit]
    rcases List.mem_cons.1 hu with rfl | hu
    · exact h.covered n (List.mem_append_left _ hn) hsome
    · exact h.closed u hu n hn hsome

/-- Working through names adds exactly what they lead to and was not listed. -/
theorem closeUnder_closes {m : TypeModel} (hm : m.WellNamed) (names : List String)
    (listed : List TypeDecl) :
    ∃ more, closeUnder m names listed = listed ++ more ∧ m.Closes names listed more := by
  fun_induction closeUnder m names listed with
  | case1 listed => exact ⟨[], by simp, closes_nil m listed⟩
  | case2 name rest listed h ih =>
    obtain ⟨more, heq, hcloses⟩ := ih
    exact ⟨more, heq, hcloses.skip fun hsome => by simp [h] at hsome⟩
  | case3 name rest listed t h hl ih =>
    obtain ⟨more, heq, hcloses⟩ := ih
    exact ⟨more, heq, hcloses.skip fun _ => hm name t h ▸ hl⟩
  | case4 name rest listed t h hl ih =>
    obtain ⟨more, heq, hcloses⟩ := ih
    have hname : t.name = name := hm name t h
    subst hname
    exact ⟨t :: more, by simp [heq], hcloses.list h (by simpa using hl)⟩

/-! ### The class loop -/

/-- A class with the types that are listed on account of its interfaces. -/
structure Level where
  head : TypeDecl
  inherited : List TypeDecl

/-- All types of a level, the class first. -/
def Level.types (l : Level) : List TypeDecl :=
  l.head :: l.inherited

/-- What is listed once the given classes are through: the classes, and everything
that they inherit, each once. -/
structure Covers (m : TypeModel) (classes : List String) (listed : List TypeDecl) : Prop where
  nodup : (listed.map (·.name)).Nodup
  closed : m.ClosedIn listed listed
  mem_iff : ∀ t, t ∈ listed ↔
    m.get? t.name = some t ∧ ∃ c ∈ classes, t.name = c ∨ m.Inherits c t.name

theorem Covers.found {m : TypeModel} {classes : List String} {listed : List TypeDecl}
    (h : m.Covers classes listed) : m.AllFound listed :=
  fun t ht => ((h.mem_iff t).1 ht).1

theorem covers_nil (m : TypeModel) : m.Covers [] [] :=
  ⟨by simp, by simp [ClosedIn], by simp⟩

section

variable {m : TypeModel} {classes : List String} {listed more : List TypeDecl} {t : TypeDecl}

/-- What the interfaces of a type add, the type inherits. -/
theorem Closes.inherits (hmore : m.Closes t.interfaces (listed ++ [t]) more)
    (hget : m.get? t.name = some t) : ∀ u ∈ more, m.Inherits t.name u.name := by
  intro u hu
  obtain ⟨n, hn, hpath⟩ := hmore.reached u hu
  exact Relation.TransGen.head' ⟨t, hget, hn⟩ hpath

theorem Covers.nodup_level (h : m.Covers classes listed) (hnew : isListed listed t.name = false)
    (hmore : m.Closes t.interfaces (listed ++ [t]) more) :
    ((listed ++ t :: more).map (·.name)).Nodup := by
  have hsplit : listed ++ t :: more = (listed ++ [t]) ++ more := by simp
  have hclass : ((listed ++ [t]).map (·.name)).Nodup := by
    rw [List.map_append]
    refine h.nodup.append (List.nodup_singleton _) ?_
    exact List.disjoint_singleton.2 (unlisted_iff.1 hnew)
  rw [hsplit, List.map_append]
  refine hclass.append hmore.nodup fun name hold hadded => ?_
  obtain ⟨u, hu, rfl⟩ := List.mem_map.1 hadded
  exact unlisted_iff.1 (hmore.unlisted u hu) hold

/-- An interface of an earlier type was listed before. One of the class is a name of the
worklist, and one of an added type is listed by the walk over the worklist. -/
theorem Covers.closed_level (h : m.Covers classes listed)
    (hmore : m.Closes t.interfaces (listed ++ [t]) more) :
    m.ClosedIn (listed ++ t :: more) (listed ++ t :: more) := by
  have hsplit : listed ++ t :: more = (listed ++ [t]) ++ more := by simp
  intro u hu n hn hsome
  rw [hsplit] at hu ⊢
  rcases List.mem_append.1 hu with hu | hu
  · rcases List.mem_append.1 hu with hu | hu
    · rw [isListed_append, isListed_append, h.closed u hu n hn hsome]
      rfl
    · rw [List.mem_singleton.1 hu] at hn
      exact hmore.covered n hn hsome
  · exact hmore.closed u hu n hn hsome

/-- Everything that a class inherits is listed once its interfaces are through. -/
theorem Covers.mem_level (h : m.Covers classes listed) (hget : m.get? t.name = some t)
    (hmore : m.Closes t.interfaces (listed ++ [t]) more) {u : TypeDecl}
    (hu : m.get? u.name = some u) (hpath : m.Inherits t.name u.name) :
    u ∈ listed ++ t :: more := by
  have hone : m.AllFound [t] := fun u hu => List.mem_singleton.1 hu ▸ hget
  have hfound : m.AllFound (listed ++ t :: more) := by
    have hall := (h.found.append hone).append hmore.found
    rwa [List.append_assoc] at hall
  have ht : isListed (listed ++ t :: more) t.name = true := isListed_iff.2 ⟨t, by simp, rfl⟩
  have hlisted := isListed_of_inherits hfound (h.closed_level hmore) ht hpath (by simp [hu])
  exact mem_of_isListed hfound hu hlisted

/-- A class that is not listed yet, with what its interfaces add. -/
theorem Covers.level (h : m.Covers classes listed) (hget : m.get? t.name = some t)
    (hnew : isListed listed t.name = false) (hmore : m.Closes t.interfaces (listed ++ [t]) more) :
    m.Covers (classes ++ [t.name]) (listed ++ t :: more) where
  nodup := h.nodup_level hnew hmore
  closed := h.closed_level hmore
  mem_iff u := by
    constructor
    · intro hu
      rcases List.mem_append.1 hu with hu | hu
      · obtain ⟨hget', c, hc, hcu⟩ := (h.mem_iff u).1 hu
        exact ⟨hget', c, List.mem_append_left _ hc, hcu⟩
      · rcases List.mem_cons.1 hu with rfl | hu
        · exact ⟨hget, u.name, by simp, .inl rfl⟩
        · exact ⟨hmore.found u hu, t.name, by simp, .inr (hmore.inherits hget u hu)⟩
    · rintro ⟨hu, c, hc, hcu⟩
      rcases List.mem_append.1 hc with hc | hc
      · exact List.mem_append_left _ ((h.mem_iff u).2 ⟨hu, c, hc, hcu⟩)
      · rw [List.mem_singleton.1 hc] at hcu
        rcases hcu with hname | hpath
        · rw [hname, hget] at hu
          cases hu
          simp
        · exact h.mem_level hget hmore hu hpath

/-- The interfaces of a class add what the class inherits, but for what is listed before. -/
theorem Covers.mem_added (h : m.Covers classes listed) (hget : m.get? t.name = some t)
    (hmore : m.Closes t.interfaces (listed ++ [t]) more) (u : TypeDecl) :
    u ∈ more ↔ m.get? u.name = some u ∧ m.Inherits t.name u.name ∧ u ∉ listed ++ [t] := by
  constructor
  · intro hu
    exact ⟨hmore.found u hu, hmore.inherits hget u hu, not_mem_of_unlisted (hmore.unlisted u hu)⟩
  · rintro ⟨hu, hpath, hold⟩
    have hmem := h.mem_level hget hmore hu hpath
    rw [← List.singleton_append, ← List.append_assoc] at hmem
    exact (List.mem_append.1 hmem).resolve_left hold

end

/-- One round of the class loop: a class that is not listed yet, and its interfaces. -/
theorem Covers.list_class {m : TypeModel} (hm : m.WellNamed) {classes : List String}
    {listed : List TypeDecl} {t : TypeDecl} (h : m.Covers classes listed)
    (hget : m.get? t.name = some t) (hnew : isListed listed t.name = false) :
    ∃ more, closeUnder m t.interfaces (listed ++ [t]) = listed ++ t :: more ∧
      m.Covers (classes ++ [t.name]) (listed ++ t :: more) ∧
      ∀ u, u ∈ more ↔ m.get? u.name = some u ∧ m.Inherits t.name u.name ∧ u ∉ listed ++ [t] := by
  obtain ⟨more, hmore, hcloses⟩ := closeUnder_closes hm t.interfaces (listed ++ [t])
  exact ⟨more, by simp [hmore], h.level hget hnew hcloses, h.mem_added hget hcloses⟩

/-- A type that is not listed is neither a class so far nor inherited by one. -/
theorem Covers.not_in_walk {m : TypeModel} {classes : List String} {listed : List TypeDecl}
    {t : TypeDecl} (h : m.Covers classes listed) (hget : m.get? t.name = some t)
    (hnew : isListed listed t.name = false) :
    t.name ∉ classes ∧ ∀ c ∈ classes, ¬ m.Inherits c t.name := by
  have hout : t ∉ listed := not_mem_of_unlisted hnew
  exact ⟨fun hc => hout ((h.mem_iff t).2 ⟨hget, t.name, hc, .inl rfl⟩),
    fun c hc hpath => hout ((h.mem_iff t).2 ⟨hget, c, hc, .inr hpath⟩)⟩

/-- What the interfaces of each class add: the types it inherits, except the class
itself and what was listed before it. -/
def AddsInherited (m : TypeModel) (listed : List TypeDecl) (levels : List Level) : Prop :=
  ∀ before l after, levels = before ++ l :: after → ∀ u, u ∈ l.inherited ↔
    m.get? u.name = some u ∧ m.Inherits l.head.name u.name ∧
      u ∉ listed ++ before.flatMap Level.types ++ [l.head]

theorem addsInherited_cons {m : TypeModel} {listed : List TypeDecl} {l : Level}
    {levels : List Level}
    (hhead : ∀ u, u ∈ l.inherited ↔
      m.get? u.name = some u ∧ m.Inherits l.head.name u.name ∧ u ∉ listed ++ [l.head])
    (htail : m.AddsInherited (listed ++ l.types) levels) :
    m.AddsInherited listed (l :: levels) := by
  intro before k after hsplit
  cases before with
  | nil =>
    simp only [List.nil_append, List.cons.injEq] at hsplit
    obtain ⟨rfl, rfl⟩ := hsplit
    simpa using hhead
  | cons b bs =>
    simp only [List.cons_append, List.cons.injEq] at hsplit
    obtain ⟨rfl, rfl⟩ := hsplit
    simpa using htail bs k after rfl

/-- The class loop lists the classes of the walk, each followed by what it adds. -/
theorem climb_covers {m : TypeModel} (hm : m.WellNamed) (name : String)
    (listed : List TypeDecl) (classes : List String) (h : m.Covers classes listed) :
    ∃ levels : List Level,
      m.ClassWalk classes (some name) (levels.map (·.head.name)) ∧
      climb m name listed = listed ++ levels.flatMap Level.types ∧
      m.Covers (classes ++ levels.map (·.head.name)) (climb m name listed) ∧
      m.AddsInherited listed levels := by
  -- The four ways in which the loop ends, and the one in which it goes on to the class above.
  fun_induction climb m name listed generalizing classes with
  | case1 listed =>
    exact ⟨[], .stop (.inl rfl), by simp, by simpa using h, by simp [AddsInherited]⟩
  | case2 name listed hroot hget =>
    exact ⟨[], .stop (.inr (.inl hget)), by simp, by simpa using h, by simp [AddsInherited]⟩
  | case3 name listed hroot t hget hl =>
    have hname : t.name = name := hm name t hget
    subst hname
    -- What is listed is an earlier class or inherited by one, so the class walk stops too.
    obtain ⟨_, c, hc, hcu⟩ := (h.mem_iff t).1 (mem_of_isListed h.found hget hl)
    refine ⟨[], .stop (.inr (.inr ?_)), by simp, by simpa using h, by simp [AddsInherited]⟩
    rcases hcu with rfl | hcu
    · exact .inl hc
    · exact .inr ⟨c, hc, hcu⟩
  | case4 name listed hroot t hget hl hsuper =>
    have hname : t.name = name := hm name t hget
    subst hname
    obtain ⟨more, heq, hcovers, hadds⟩ := h.list_class hm hget (by simpa using hl)
    obtain ⟨hnew, hover⟩ := h.not_in_walk hget (by simpa using hl)
    rw [heq]
    refine ⟨[⟨t, more⟩], .climb hroot hget hnew hover ?_, by simp [Level.types], hcovers, ?_⟩
    · rw [hsuper]
      exact .top _
    · exact addsInherited_cons hadds (by simp [AddsInherited])
  | case5 name listed hroot t hget hl above hsuper ih =>
    have hname : t.name = name := hm name t hget
    subst hname
    obtain ⟨more, heq, hcovers, hadds⟩ := h.list_class hm hget (by simpa using hl)
    obtain ⟨hnew, hover⟩ := h.not_in_walk hget (by simpa using hl)
    rw [heq] at ih ⊢
    obtain ⟨levels, hwalk, hclimb, hrest, haddsRest⟩ := ih (classes ++ [t.name]) hcovers
    refine ⟨⟨t, more⟩ :: levels, .climb hroot hget hnew hover ?_, ?_, ?_, ?_⟩
    · rw [hsuper]
      exact hwalk
    · rw [hclimb]
      simp [Level.types]
    · simpa using hrest
    · exact addsInherited_cons hadds haddsRest

/-- The walk ends, and lists no more types than the model has. -/
theorem length_le_of_covers {m : TypeModel} {classes : List String} {listed : List TypeDecl}
    (h : m.Covers classes listed) : listed.length ≤ m.types.size := by
  -- The names are different names of the model.
  have hsub : listed.map (·.name) ⊆ m.types.keys := by
    intro name hname
    obtain ⟨t, ht, rfl⟩ := List.mem_map.1 hname
    exact List.mem_map.2 ⟨(t.name, t), Keyed.mem_of_find?_eq_some (h.found t ht), rfl⟩
  have hle := (List.subperm_of_subset h.nodup hsub).length_le
  simpa [Dict.keys, Dict.size] using hle

/-- The hierarchy of a name, for every model in which the types are found under their
own names. There is exactly one class walk from the name, and the hierarchy lists its
classes level by level: each class, then what its interfaces lead to and no level
before it has listed. It lists no type twice, and the types that it lists are the
classes of the walk and the types that one of them inherits. -/
theorem hierarchy_lists_walk {m : TypeModel} (hm : m.WellNamed) (name : String) :
    ∃ levels : List Level,
      m.ClassWalk [] (some name) (levels.map (·.head.name)) ∧
      (∀ classes, m.ClassWalk [] (some name) classes → classes = levels.map (·.head.name)) ∧
      m.hierarchy name = levels.flatMap Level.types ∧
      m.AddsInherited [] levels ∧
      ((m.hierarchy name).map (·.name)).Nodup ∧
      (m.hierarchy name).length ≤ m.types.size ∧
      ∀ t, t ∈ m.hierarchy name ↔ m.get? t.name = some t ∧
        ∃ c ∈ levels.map (·.head.name), t.name = c ∨ m.Inherits c t.name := by
  obtain ⟨levels, hwalk, hclimb, hcovers, hadds⟩ := climb_covers hm name [] [] (covers_nil m)
  rw [List.nil_append] at hclimb hcovers
  exact ⟨levels, hwalk, fun classes h => h.unique hwalk, hclimb, hadds, hcovers.nodup,
    length_le_of_covers hcovers, hcovers.mem_iff⟩

/-! ### Models of lists of types -/

/-- A type replaces the one of its own name. -/
theorem WellNamed.register {m : TypeModel} (hm : m.WellNamed) (t : TypeDecl) :
    (m.register t).WellNamed := by
  intro name u hu
  rw [get?, TypeModel.register, Dict.get?_insert] at hu
  split at hu
  · next heq =>
    cases hu
    exact heq
  · exact hm name u hu

/-- A model made of a list of types finds each under its own name. -/
theorem wellNamed_ofTypes (types : List TypeDecl) : (ofTypes types).WellNamed := by
  -- Over any model to start from, since every type is registered in the model of the ones before.
  suffices h : ∀ m : TypeModel, m.WellNamed → (types.foldl TypeModel.register m).WellNamed from
    h ⟨∅⟩ fun name t ht => by simp [get?] at ht
  induction types with
  | nil => exact fun m hm => hm
  | cons t rest ih => exact fun m hm => ih (m.register t) (hm.register t)

/-- A class and an interface that circle back, an interface that is met twice, and a
name without a type. -/
def circular : TypeModel := ofTypes
  [{ name := "User", superclass := some "Base", interfaces := ["Person", "Missing"] },
    { name := "Base", superclass := some "User", interfaces := ["Audited"] },
    { name := "Person", kind := .interface, interfaces := ["Named"] },
    { name := "Audited", kind := .interface, interfaces := ["Named", "Audited"] },
    { name := "Named", kind := .interface, interfaces := ["Person"] }]

/-- The walk over a model with circles: two classes, and three interfaces between them
and after them. -/
theorem hierarchy_lists_walk_circular :
    circular.WellNamed ∧
    (circular.hierarchy "User").map (·.name) = ["User", "Person", "Named", "Base", "Audited"] ∧
    ∃ levels : List Level, circular.ClassWalk [] (some "User") (levels.map (·.head.name)) ∧
      circular.hierarchy "User" = levels.flatMap Level.types := by
  have hm : circular.WellNamed := wellNamed_ofTypes _
  obtain ⟨levels, hwalk, _, heq, _⟩ := hierarchy_lists_walk hm "User"
  exact ⟨hm, by decide +kernel, levels, hwalk, heq⟩

end FieldGuard.TypeModel
