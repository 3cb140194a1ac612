import FieldGuard.Annotation.Constraint
import FieldGuard.Unique

/-!
# `FieldGuard.Request.Groups`: the groups of a request

For every view and component a request keeps the groups that are switched on and
those that are switched off. Both only ever grow. A group counts unless it is
switched off; as long as none is switched on, the default group is.

* `sets_update`: a change of one owner's sets leaves those of all others alone.
-/

set_option autoImplicit false

namespace FieldGuard

/-- The groups switched on and off, each in the order in which that happened first. -/
structure GroupSets where
  active : List String := []
  restricted : List String := []
  deriving DecidableEq, Repr, Inhabited

namespace GroupSets

/-- The sets with a group switched on. -/
def activate (s : GroupSets) (group : String) : GroupSets :=
  { s with active := addUnique s.active group }

/-- The sets with a group switched off. -/
def restrict (s : GroupSets) (group : String) : GroupSets :=
  { s with restricted := addUnique s.restricted group }

/-- The groups that count. -/
def effective (s : GroupSets) : List String :=
  (if s.active.isEmpty then [defaultGroup] else s.active).filter fun group =>
    !s.restricted.contains group

end GroupSets

/-- A component in a view. -/
structure Owner where
  view : String
  clientId : String
  deriving DecidableEq, Repr, Inhabited

/-- The groups by owner. -/
structure GroupLedger where
  entries : List (Owner × GroupSets) := []
  deriving Repr, Inhabited

namespace GroupLedger

/-- The sets of an owner in a list of entries. -/
def find (owner : Owner) : List (Owner × GroupSets) → GroupSets
  | [] => {}
  | (o, sets) :: rest => if o = owner then sets else find owner rest

/-- Changes the sets of an owner in a list of entries. -/
def change (owner : Owner) (f : GroupSets → GroupSets) :
    List (Owner × GroupSets) → List (Owner × GroupSets)
  | [] => [(owner, f {})]
  | (o, sets) :: rest => if o = owner then (o, f sets) :: rest else (o, sets) :: change owner f rest

/-- The sets of an owner. -/
def sets (l : GroupLedger) (owner : Owner) : GroupSets :=
  find owner l.entries

/-- The ledger with the sets of an owner changed. -/
def update (l : GroupLedger) (owner : Owner) (f : GroupSets → GroupSets) : GroupLedger :=
  ⟨change owner f l.entries⟩

/-- The groups that count for an owner. -/
def groups (l : GroupLedger) (owner : Owner) : List String :=
  (l.sets owner).effective

/-- The ledger with a group switched on for an owner. -/
def activate (l : GroupLedger) (owner : Owner) (group : String) : GroupLedger :=
  l.update owner (·.activate group)

/-- The ledger with a group switched off for an owner. -/
def restrict (l : GroupLedger) (owner : Owner) (group : String) : GroupLedger :=
  l.update owner (·.restrict group)

/-- The ledger with groups switched on one after the other. -/
def activateAll (l : GroupLedger) (owner : Owner) (groups : List String) : GroupLedger :=
  groups.foldl (fun l group => l.activate owner group) l

/-- The ledger with groups switched off one after the other. -/
def restrictAll (l : GroupLedger) (owner : Owner) (groups : List String) : GroupLedger :=
  groups.foldl (fun l group => l.restrict owner group) l

theorem find_change (owner other : Owner) (f : GroupSets → GroupSets)
    (entries : List (Owner × GroupSets)) :
    find other (change owner f entries)
      = if owner = other then f (find other entries) else find other entries := by
  induction entries with
  | nil => by_cases h : owner = other <;> simp [change, find, h]
  | cons entry rest ih =>
    obtain ⟨o, sets⟩ := entry
    by_cases ho : o = owner
    · subst ho
      by_cases h : o = other <;> simp [change, find, h]
    · by_cases h : owner = other
      · subst h; simp [change, find, ho, ih]
      · simp [change, find, ho, ih, h]

/-- A change of one owner's sets leaves those of all others alone. -/
theorem sets_update (l : GroupLedger) (owner other : Owner) (f : GroupSets → GroupSets) :
    (l.update owner f).sets other = if owner = other then f (l.sets other) else l.sets other :=
  find_change owner other f l.entries

end GroupLedger

end FieldGuard
