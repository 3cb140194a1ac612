import FieldGuard.Proofs.ModelDemands
import Mathlib.Data.List.TakeWhile

/-!
# `FieldGuard.Proofs.ControllerPlaces`: where the controllers of a binding are read

The evaluator follows the steps of a binding and writes the names they stand for into one
key, with dots between them. The group scan cuts that key at its dots and takes the second
piece for the first property of the root object. A name in brackets may have dots itself.
Then the piece is only its beginning, and the controllers of another property are read.

* `Evaluation.navigates_of_details`: the root object and the names behind the details of a
  binding;
* `Groups.pairwise_distinct`, `Groups.any_distinct`: no place is read twice, and none is left
  out because of that;
* `Groups.places_eq`: the first property is read by its name up to the first dot;
* `Groups.reads_documented_iff`: so the four places are read just when the first name has no
  dot;
* `Groups.reads_home_for_zip`: a field of one property that gets the groups of another.
-/

set_option autoImplicit false

namespace FieldGuard

namespace Text

/-- A name up to its first dot. -/
def beforeDot (s : String) : String :=
  String.ofList (s.toList.takeWhile (· ≠ '.'))

theorem head?_dotted (s : String) : (dotted s).head? = some (beforeDot s) := by
  rw [dotted, List.head?_map, head?_cut]
  rfl

theorem dotted_of_not_mem {s : String} (h : '.' ∉ s.toList) : dotted s = [s] := by
  rw [dotted, cut_of_not_mem h]
  simp

/-- A name ends at its first dot just when it has none. -/
theorem beforeDot_eq_self_iff (s : String) : beforeDot s = s ↔ '.' ∉ s.toList := by
  constructor
  · intro h hdot
    have hchars := congrArg String.toList h
    rw [beforeDot, String.toList_ofList] at hchars
    have hdots := List.takeWhile_eq_self_iff.1 hchars '.' hdot
    simp at hdots
  · intro h
    have hhead := head?_dotted s
    rw [dotted_of_not_mem h] at hhead
    exact (Option.some.inj hhead).symm

/-- The pieces of names that are written with dots between them are those of the names. -/
theorem dotted_intercalate (first second : String) (rest : List String) :
    dotted (".".intercalate (first :: second :: rest))
      = dotted first ++ dotted (".".intercalate (second :: rest)) := by
  rw [dotted, toList_intercalate_cons, cut_append_sep, List.map_append]
  rfl

end Text

namespace Groups

open Text

/-! ### Places that are read once -/

namespace Location

theorem sameAs_iff {a b : Location} :
    a.sameAs b = true ↔ a.object.identity = b.object.identity ∧ a.property = b.property := by
  simp [sameAs]

theorem sameAs_congr {a b : Location} (h : a.sameAs b = true) (c : Location) :
    a.sameAs c = b.sameAs c := by
  obtain ⟨hobject, hproperty⟩ := sameAs_iff.1 h
  rw [sameAs, sameAs, hobject, hproperty]

theorem sameAs_comm (a b : Location) : a.sameAs b = b.sameAs a := by
  rw [Bool.eq_iff_iff, sameAs_iff, sameAs_iff]
  exact and_congr eq_comm eq_comm

end Location

/-- Dropping repeated places leaves the same places to be read. -/
theorem any_distinct (l : Location) (seen ls : List Location) :
    (seen.any l.sameAs || (distinct seen ls).any l.sameAs)
      = (seen.any l.sameAs || ls.any l.sameAs) := by
  induction ls generalizing seen with
  | nil => rfl
  | cons first rest ih =>
    rw [distinct]
    split
    · next hseen =>
      -- If `l` is the place that is dropped, it has been seen.
      rw [ih, List.any_cons]
      cases hsame : l.sameAs first with
      | false => rw [Bool.false_or]
      | true =>
        obtain ⟨earlier, hmem, hearlier⟩ := List.any_eq_true.1 hseen
        have hl : seen.any l.sameAs = true :=
          List.any_eq_true.2 ⟨earlier, hmem, (Location.sameAs_congr hsame earlier).trans hearlier⟩
        simp [hl]
    · have hstep := ih (seen ++ [first])
      rw [List.any_append, List.any_cons, List.any_nil, Bool.or_false] at hstep
      rw [List.any_cons, List.any_cons, ← Bool.or_assoc, ← Bool.or_assoc]
      exact hstep

/-- No place is read twice, nor after it has been seen. -/
theorem pairwise_distinct (seen ls : List Location) :
    (distinct seen ls).Pairwise (fun a b => a.sameAs b = false) ∧
      ∀ l ∈ distinct seen ls, seen.any l.sameAs = false := by
  induction ls generalizing seen with
  | nil => exact ⟨List.Pairwise.nil, fun l hl => by cases hl⟩
  | cons first rest ih =>
    rw [distinct]
    split
    · exact ih seen
    · next hfirst =>
      obtain ⟨hpairwise, hunseen⟩ := ih (seen ++ [first])
      have hlater : ∀ l ∈ distinct (seen ++ [first]) rest,
          seen.any l.sameAs = false ∧ first.sameAs l = false := by
        intro l hl
        have hl := hunseen l hl
        rw [List.any_append, Bool.or_eq_false_iff] at hl
        rw [Location.sameAs_comm]
        exact ⟨hl.1, by simpa using hl.2⟩
      refine ⟨List.pairwise_cons.2 ⟨fun l hl => (hlater l hl).2, hpairwise⟩, ?_⟩
      exact List.forall_mem_cons.2 ⟨by simpa using hfirst, fun l hl => (hlater l hl).1⟩

/-! ### The places of a binding -/

/-- The four places of a binding: its root object, the first property on it, the owner of the
last property, and that property. -/
def documented (root : Bean) (first : String) (owner : Bean) (last : String) : List Location :=
  [⟨root, none⟩, ⟨root, some first⟩, ⟨owner, none⟩, ⟨owner, some last⟩]

/-- Two first properties make the same four places only if they are one. -/
theorem documented_inj {root owner : Bean} {first other last : String}
    (h : ∀ l, (documented root other owner last).any (Location.sameAs l)
      = (documented root first owner last).any (Location.sameAs l)) : other = first := by
  -- The owner's property could stand in for either, but not for both unless they are one.
  have hother : other = first ∨ root.identity = owner.identity ∧ other = last := by
    simpa [documented, Location.sameAs] using h ⟨root, some other⟩
  have hfirst : first = other ∨ root.identity = owner.identity ∧ first = last := by
    simpa [documented, Location.sameAs] using (h ⟨root, some first⟩).symm
  rcases hother with hsame | ⟨-, hother⟩
  · exact hsame
  · rcases hfirst with hsame | ⟨-, hfirst⟩
    · exact hsame.symm
    · exact hother.trans hfirst.symm

end Groups

namespace Evaluation

/-- The names that the steps of a binding stand for, and the object under the name of its root
as it is written. -/
structure Navigates (scope : Scope) (b : Binding) (root : Bean) (rootName first : String)
    (later : List String) : Prop where
  names : namesOf (evaluate scope) b.steps = .ok (rootName :: first :: later)
  found : (b.steps.head?.bind fun step => scope.get? step.name) = some (.object root)

theorem length_namesOf {nested : List Char → Except Fault Value} {steps : List Step}
    {names : List String} (h : namesOf nested steps = .ok names) : names.length = steps.length := by
  induction steps generalizing names with
  | nil =>
    cases h
    rfl
  | cons step rest ih =>
    obtain ⟨name, -, h⟩ := ok_of_bind h
    obtain ⟨others, hothers, h⟩ := ok_of_bind h
    cases h
    rw [List.length_cons, List.length_cons, ih hothers]

theorem exists_cons_cons {α : Type} {l : List α} (h : 2 ≤ l.length) :
    ∃ a b rest, l = a :: b :: rest := by
  cases l with
  | nil => simp at h
  | cons a l =>
    cases l with
    | nil => simp at h
    | cons b rest => exact ⟨a, b, rest, rfl⟩

/-- Only from an object does a path lead to another one. -/
theorem root_of_walk {nested : List Char → Except Fault Value} {value : Value} {steps : List Step}
    {owner : Bean} (h : walk nested value steps = .ok (.object owner)) :
    ∃ root, value = .object root := by
  cases steps with
  | nil =>
    cases h
    exact ⟨owner, rfl⟩
  | cons step rest =>
    obtain ⟨name, -, h⟩ := ok_of_bind h
    cases value with
    | object root => exact ⟨root, rfl⟩
    | null => cases h
    | bool _ => cases h
    | integer _ => cases h
    | decimal _ => cases h
    | text _ => cases h

/-- A path that leads to an object starts from a root object. -/
theorem root_of_follow {nested : List Char → Except Fault Value} {scope : Scope} {root : Step}
    {steps : List Step} {owner : Bean}
    (h : follow nested scope (root :: steps) = .ok (.object owner)) :
    ∃ bean, scope.get? root.name = some (.object bean) := by
  rw [follow] at h
  split at h
  · cases h
  · next value hvalue =>
    obtain ⟨bean, rfl⟩ := root_of_walk h
    exact ⟨bean, hvalue⟩

/-- A binding whose details have an owner leads there from a root object. -/
theorem navigates_of_details {scope : Scope} {b : Binding} {d : Details} {owner : Bean}
    (h : detailsOf scope b = .ok d) (hbase : d.base = some owner) :
    ∃ root rootName first later, Navigates scope b root rootName first later ∧
      d.key = ".".intercalate (rootName :: first :: later) ∧
      d.property = (first :: later).getLastD "" := by
  obtain ⟨-, hlength, names, hnames, hfollow, hkey, hproperty⟩ := detailsOf_eq_ok_iff.1 h
  rw [Details.baseValue, hbase] at hfollow
  -- There are a root and a step at least, and a name for each of them.
  obtain ⟨rootStep, next, rest, hsteps⟩ := exists_cons_cons hlength
  obtain ⟨rootName, first, later, rfl⟩ := exists_cons_cons (length_namesOf hnames ▸ hlength)
  rw [hsteps, List.dropLast_cons_cons] at hfollow
  obtain ⟨root, hroot⟩ := root_of_follow hfollow
  refine ⟨root, rootName, first, later, ⟨hnames, ?_⟩, hkey, hproperty⟩
  rw [hsteps]
  exact hroot

end Evaluation

namespace Groups

open Text

/-- The places that are read for a binding whose root is called what is written: the first
property on it ends where the name of the first step has a dot. -/
theorem places_eq {env : Environment} (hevaluator : env.evaluator = .standard) {page : Page}
    {b : Binding} {root : Bean} {rootName first : String} {later : List String}
    (h : Evaluation.Navigates page.scope b root rootName first later)
    (hwritten : b.steps.head?.map Step.name = some rootName) (hdot : '.' ∉ rootName.toList)
    {d : Details} (hkey : d.key = ".".intercalate (rootName :: first :: later)) {owner : Bean}
    (hbase : d.base = some owner) :
    places env page d = distinct [] (documented root (beforeDot first) owner d.property) := by
  obtain ⟨step, hstep, hname⟩ := Option.map_eq_some_iff.1 hwritten
  have hfound : page.scope.get? rootName = some (.object root) := by
    have hfound := h.found
    rw [hstep, Option.bind_some, hname] at hfound
    exact hfound
  have hpieces : dotted d.key = rootName :: dotted (".".intercalate (first :: later)) := by
    rw [hkey, dotted_intercalate, dotted_of_not_mem hdot]
    rfl
  -- Whatever follows the first name, its own first piece comes next.
  have hnext : (dotted d.key)[1]? = some (beforeDot first) := by
    rw [hpieces, List.getElem?_cons_succ, ← List.head?_eq_getElem?]
    cases later with
    | nil => exact head?_dotted first
    | cons second rest =>
      rw [dotted_intercalate, List.head?_append, head?_dotted]
      rfl
  have hroot : root? env page d = some root := by
    rw [root?, hpieces, hevaluator]
    show (page.scope.get? rootName).bind Value.asBean? = some root
    rw [hfound]
    rfl
  rw [places, rootPlaces, hroot, ownerPlaces, hbase]
  dsimp only
  rw [hnext]
  rfl

/-- The places that are read are never the same twice. If the root of a binding is called what
is written and has no dot in its name, then they are the four places of the binding just when
its first step has no dot in its name either, and only the controllers that are declared there
take part. -/
theorem reads_documented_iff {env : Environment} (hevaluator : env.evaluator = .standard)
    {page : Page} {b : Binding} {d : Details} (hd : env.evaluator.details page.scope b = .ok d)
    {owner : Bean} (hbase : d.base = some owner) :
    (places env page d).Pairwise (fun l l' => l.sameAs l' = false) ∧
    ∃ root rootName first later,
      Evaluation.Navigates page.scope b root rootName first later ∧
      d.property = (first :: later).getLastD "" ∧
      (b.steps.head?.map Step.name = some rootName → '.' ∉ rootName.toList →
        let four := documented root first owner d.property
        ((∀ l, (places env page d).any (Location.sameAs l) = four.any (Location.sameAs l)) ↔
          '.' ∉ first.toList) ∧
        ('.' ∉ first.toList → scan env page d = (distinct [] four).flatMap fun l =>
          ((l.controllers env.types page.view).filter (isPermitted env page)).map
            fun c => (l, c))) := by
  refine ⟨(pairwise_distinct [] _).1, ?_⟩
  rw [hevaluator] at hd
  obtain ⟨root, rootName, first, later, hnavigates, hkey, hproperty⟩ :=
    Evaluation.navigates_of_details hd hbase
  refine ⟨root, rootName, first, later, hnavigates, hproperty, fun hwritten hdot => ?_⟩
  have hplaces := places_eq hevaluator hnavigates hwritten hdot hkey hbase
  have hreads : ∀ (l : Location) (ls : List Location),
      (distinct [] ls).any (Location.sameAs l) = ls.any (Location.sameAs l) :=
    fun l ls => any_distinct l [] ls
  refine ⟨⟨fun hsame => ?_, fun hfirst l => ?_⟩, fun hfirst => ?_⟩
  · -- The property that is read goes by the name before the dot.
    have hone : beforeDot first = first := documented_inj fun l => by
      rw [← hsame l, hplaces, hreads]
    exact (beforeDot_eq_self_iff first).1 hone
  · rw [hplaces, hreads, (beforeDot_eq_self_iff first).2 hfirst]
  · rw [scan, hplaces, (beforeDot_eq_self_iff first).2 hfirst]

/-! ### A property whose name has a dot -/

/-- A registration: the home of a user switches to another group, the postal code must not be
null. -/
def moveParts : EngineParts where
  types := .ofTypes
    [{ name := "Registration", properties :=
        [(PropertyDecl.new "home").onField (.controller { useGroups := ["Move"] }),
          (PropertyDecl.new "home.zip").onField (.constraint { rule := .notNull }),
          (PropertyDecl.new "zip").onField (.constraint { rule := .notNull })] }]

/-- A page with one registration. -/
def movePage : Request :=
  .new "/edit.xhtml" (Dict.ofList [("reg", .object (Record.ofType "Registration"))])

/-- A property of the registration, bound by its name in brackets. -/
def registrationKey (property : String) : Binding :=
  ⟨"#\x7breg['" ++ property ++ "']\x7d"⟩

/-- A field for a property of the registration. -/
def moveField (property : String) : Component where
  clientId := "form:zip"
  valueBinding := some (registrationKey property).text

theorem details_of_registrationKey {property : String}
    (hterm : (registrationKey property).isTerm = true)
    (hsteps : (registrationKey property).steps = [.property "reg", .key property]) :
    moveParts.engine.env.evaluator.details movePage.page.scope (registrationKey property)
      = .ok ⟨".".intercalate ["reg", property], some (Record.ofType "Registration"), property⟩ := by
  show Evaluation.detailsOf movePage.page.scope (registrationKey property) = _
  rw [Evaluation.detailsOf, hterm, hsteps]
  rfl

/-- The places of the postal code are all read. -/
theorem reads_documented_iff_zip :
    let env := moveParts.engine.env
    let b := registrationKey "zip"
    let reg : Bean := Record.ofType "Registration"
    ∃ d, env.evaluator.details movePage.page.scope b = .ok d ∧ d.base = some reg ∧
      ∀ l, (places env movePage.page d).any (Location.sameAs l)
        = (documented reg "zip" reg "zip").any (Location.sameAs l) := by
  intro env b reg
  have hsteps : b.steps = [.property "reg", .key "zip"] := by decide +kernel
  have hterm : b.isTerm = true := by decide +kernel
  have hd := details_of_registrationKey hterm hsteps
  refine ⟨_, hd, rfl, ?_⟩
  obtain ⟨-, root, rootName, first, later, hnavigates, -, hiff⟩ :=
    @reads_documented_iff env rfl movePage.page b _ hd reg rfl
  have hnames := hnavigates.names
  have hfound := hnavigates.found
  rw [hsteps] at hnames hfound
  cases hnames
  cases hfound
  exact (hiff (by rw [hsteps]; rfl) (by decide)).1.2 (by decide)

/-- The field for the postal code of the home reads the controllers of the home. It gets their
group, and an empty value is accepted although it must not be null. -/
theorem reads_home_for_zip :
    let e := moveParts.engine
    let s := Session.start e movePage
    let reg : Bean := Record.ofType "Registration"
    (∃ d, e.env.evaluator.details movePage.page.scope (registrationKey "home.zip") = .ok d ∧
      d.base = some reg ∧ d.property = "home.zip" ∧
      (places e.env movePage.page d).any (Location.sameAs ⟨reg, some "home"⟩) = true ∧
      (documented reg "home.zip" reg "home.zip").any (Location.sameAs ⟨reg, some "home"⟩)
        = false) ∧
    (e.submit (moveField "home.zip") "" s).1.isValid = true ∧
    (e.submit (moveField "home.zip") "" s).2.request.groups "form:zip" = ["Move"] ∧
    (e.submit (moveField "zip") "" s).1.isValid = false := by
  intro e s reg
  have hterm : (registrationKey "home.zip").isTerm = true := by decide +kernel
  have hsteps : (registrationKey "home.zip").steps = [.property "reg", .key "home.zip"] := by
    decide +kernel
  have hd := details_of_registrationKey hterm hsteps
  refine ⟨⟨_, hd, rfl, rfl, ?_, ?_⟩, ?_, ?_, ?_⟩
  · decide +kernel
  · decide +kernel
  · decide +kernel
  · decide +kernel
  · decide +kernel

end Groups

end FieldGuard
