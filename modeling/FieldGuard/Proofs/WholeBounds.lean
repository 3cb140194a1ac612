import FieldGuard.Constraints.Engine
import FieldGuard.Proofs.Rounding
import FieldGuard.Strategy.Standard

/-!
# `FieldGuard.Proofs.WholeBounds`: bounds on whole numbers

A bound on a whole number can be declared in two ways. The strategy for ranges compares 64-bit
signed numbers as they are. The constraint engine compares every number as a floating point
number, and turns the value and the bound into one first. Beyond `2 ^ 53` in size a value may
become the same floating point number as a bound that it breaks, and then the constraint engine
does not see it.

* `Rule.isViolatedBy_min`, `Rule.isViolatedBy_max`: what the constraint engine compares;
* `checkWholeRange_integer`: what the strategy compares;
* `whole_bounds_reported_iff`: where the two agree, and how far the constraint engine is off;
* `min_passes_below`: a value below the bound that passes.
-/

set_option autoImplicit false

namespace FieldGuard

open Number (nearest)

/-- One number is below another, but not so after rounding. -/
def Number.Blurs (m n : Int64) : Prop :=
  m < n ∧ nearest m.toInt = nearest n.toInt

namespace Number

/-- What is below after rounding was below before. -/
theorem nearest_lt_iff (m n : Int64) :
    nearest m.toInt < nearest n.toInt ↔ m < n ∧ ¬ Blurs m n := by
  rw [Blurs, Int64.lt_iff_toInt_lt]
  constructor
  · intro h
    have hlt : m.toInt < n.toInt := by
      refine Int.lt_of_not_ge fun hge => ?_
      have hmono := nearest_mono hge
      omega
    exact ⟨hlt, fun hblurs => by omega⟩
  · rintro ⟨hlt, hseen⟩
    have hmono := nearest_mono (Int.le_of_lt hlt)
    have hne : nearest m.toInt ≠ nearest n.toInt := fun heq => hseen ⟨hlt, heq⟩
    omega

theorem Blurs.lt {m n : Int64} (h : Blurs m n) : m < n :=
  h.1

/-- Rounding hides differences up to 1024 at most. -/
theorem Blurs.near {m n : Int64} (h : Blurs m n) : n.toInt ≤ m.toInt + 1024 := by
  have hm := nearest_near (natAbs_toInt_le m)
  have hn := nearest_near (natAbs_toInt_le n)
  have hsame := h.2
  omega

/-- Rounding hides nothing up to `2 ^ 53` in size. -/
theorem not_blurs_of_le {m n : Int64} (hm : m.toInt.natAbs ≤ 2 ^ 53)
    (hn : n.toInt.natAbs ≤ 2 ^ 53) : ¬ Blurs m n := by
  rintro ⟨hlt, hsame⟩
  rw [nearest_eq_self hm, nearest_eq_self hn] at hsame
  rw [Int64.lt_iff_toInt_lt] at hlt
  omega

end Number

open Number (Blurs)

namespace Rule

theorem isViolatedBy_min (v bound : Int64) :
    (Rule.min bound).isViolatedBy (.integer v) = true ↔ v < bound ∧ ¬ Blurs v bound := by
  show Number.below (Number.toFloat v) (Number.toFloat bound) = true ↔ _
  rw [Number.below_toFloat, Number.nearest_lt_iff]

theorem isViolatedBy_max (v bound : Int64) :
    (Rule.max bound).isViolatedBy (.integer v) = true ↔ bound < v ∧ ¬ Blurs bound v := by
  show Number.below (Number.toFloat bound) (Number.toFloat v) = true ↔ _
  rw [Number.below_toFloat, Number.nearest_lt_iff]

end Rule

/-- A constraint that is not composed with others has a message just when its rule is violated. -/
theorem Constraint.check_ne_nil_iff {c : Constraint} (h : c.composing = []) (value : Value) :
    c.check value ≠ [] ↔ c.rule.isViolatedBy value = true := by
  obtain ⟨rule, groups, message, composing⟩ := c
  subst h
  -- The breaches are those of the rule alone, and each has a text.
  rw [Constraint.check, Constraint.breaches, Constraint.breachesOfAll, List.append_nil]
  cases rule.isViolatedBy value <;> simp

/-- The strategy for ranges compares whole numbers as they are. -/
theorem Strategy.checkWholeRange_integer {e : Entry} {range : WholeRange}
    (h : e.annotation = .wholeRange range) (v : Int64) :
    checkWholeRange e (.integer v) = .ok [] ↔ range.minimum ≤ v ∧ v ≤ range.maximum := by
  have hrange : e.wholeRange = .ok range := by
    unfold Entry.wholeRange
    rw [h]
  have hcheck : checkWholeRange e (.integer v)
      = .ok (if range.minimum ≤ v ∧ v ≤ range.maximum then []
          else
            [.of "range"
              (range.message.getD
                (rangeMessage (toString range.minimum.toInt) (toString range.maximum.toInt)))
              [("min", .ofInt64 range.minimum), ("max", .ofInt64 range.maximum)]]) := by
    unfold checkWholeRange
    rw [hrange]
    rfl
  rw [hcheck]
  split <;> simp_all

section Hiding

variable {below above hiddenBelow hiddenAbove reportsMin reportsMax accepts : Prop}

/-- A breach that is reported unless it is hidden is reported exactly just when none is hidden. -/
theorem reported_iff_breached_iff (hhidden : hiddenBelow → below)
    (hmin : reportsMin ↔ below ∧ ¬ hiddenBelow) :
    (reportsMin ↔ below) ↔ ¬ hiddenBelow := by
  rw [hmin]
  exact ⟨fun h hb => (h.2 (hhidden hb)).2 hb, fun hb => and_iff_left hb⟩

/-- Two rules let through what keeps both bounds, just when a hidden breach of one comes with a
reported breach of the other. -/
theorem passes_iff_accepts_iff (hhiddenBelow : hiddenBelow → below)
    (hhiddenAbove : hiddenAbove → above) (hmin : reportsMin ↔ below ∧ ¬ hiddenBelow)
    (hmax : reportsMax ↔ above ∧ ¬ hiddenAbove) (haccepts : accepts ↔ ¬ below ∧ ¬ above) :
    (¬ reportsMin ∧ ¬ reportsMax ↔ accepts) ↔
      (hiddenBelow → reportsMax) ∧ (hiddenAbove → reportsMin) := by
  grind

end Hiding

/-- The constraint engine reports a least number on a whole number just when the number is below
it and rounding does not hide that, and a greatest number likewise. So what it reports is
broken, and what it misses is broken by 1024 at most, and by nothing if value and bound are up
to `2 ^ 53` in size. The strategy for ranges accepts just the numbers of the range. A rule is
reported exactly just when rounding hides no breach of it, and what passes both rules is what
the strategy accepts just when a hidden breach of one comes with a visible one of the other. -/
theorem whole_bounds_reported_iff (types : TypeModel) (groups : List String)
    (text : Option String) {e : Entry} {lo hi : Int64} {message : Option String}
    (he : e.annotation = .wholeRange ⟨lo, hi, message⟩) (v : Int64) :
    let reports := fun rule : Rule => (ConstraintEngine.ofTypes types).check
      { rule, groups, message := text } (.integer v) ≠ []
    let accepts := Strategy.checkWholeRange e (.integer v) = .ok []
    (reports (.min lo) ↔ v < lo ∧ ¬ Blurs v lo) ∧
    (reports (.max hi) ↔ hi < v ∧ ¬ Blurs hi v) ∧
    (accepts ↔ lo ≤ v ∧ v ≤ hi) ∧
    ((reports (.min lo) ↔ v < lo) ↔ ¬ Blurs v lo) ∧
    ((reports (.max hi) ↔ hi < v) ↔ ¬ Blurs hi v) ∧
    ((¬ reports (.min lo) ∧ ¬ reports (.max hi) ↔ accepts) ↔
      (Blurs v lo → reports (.max hi)) ∧ (Blurs hi v → reports (.min lo))) ∧
    (Blurs v lo → lo.toInt ≤ v.toInt + 1024) ∧ (Blurs hi v → v.toInt ≤ hi.toInt + 1024) ∧
    (v.toInt.natAbs ≤ 2 ^ 53 → lo.toInt.natAbs ≤ 2 ^ 53 → hi.toInt.natAbs ≤ 2 ^ 53 →
      ¬ Blurs v lo ∧ ¬ Blurs hi v) := by
  intro reports accepts
  have hreports : ∀ rule : Rule, reports rule ↔ rule.isViolatedBy (.integer v) = true :=
    fun rule => Constraint.check_ne_nil_iff (c := { rule, groups, message := text }) rfl _
  have hmin : reports (.min lo) ↔ v < lo ∧ ¬ Blurs v lo :=
    (hreports _).trans (Rule.isViolatedBy_min v lo)
  have hmax : reports (.max hi) ↔ hi < v ∧ ¬ Blurs hi v :=
    (hreports _).trans (Rule.isViolatedBy_max v hi)
  have haccepts : accepts ↔ ¬ v < lo ∧ ¬ hi < v := by
    rw [Int64.not_lt, Int64.not_lt]
    exact Strategy.checkWholeRange_integer he v
  have hboth := passes_iff_accepts_iff (Number.Blurs.lt (m := v) (n := lo))
    (Number.Blurs.lt (m := hi) (n := v)) hmin hmax haccepts
  exact ⟨hmin, hmax, Strategy.checkWholeRange_integer he v,
    reported_iff_breached_iff Number.Blurs.lt hmin, reported_iff_breached_iff Number.Blurs.lt hmax,
    hboth, Number.Blurs.near, Number.Blurs.near,
    fun hv hlo hhi => ⟨Number.not_blurs_of_le hv hlo, Number.not_blurs_of_le hhi hv⟩⟩

/-- The entry of a range for an age. -/
def ageEntry : Entry :=
  { Entry.ofAnnotation (.wholeRange { minimum := 18, maximum := 120 }) with
    property := some "age" }

/-- An age of 17 is reported as too low and refused by the strategy. -/
theorem whole_bounds_reported_iff_age :
    ageEntry.annotation = .wholeRange ⟨18, 120, none⟩ ∧
    (ConstraintEngine.ofTypes (.ofTypes [])).check { rule := .min 18 } (.integer 17) ≠ [] ∧
    (ConstraintEngine.ofTypes (.ofTypes [])).check { rule := .max 120 } (.integer 17) = [] ∧
    Strategy.checkWholeRange ageEntry (.integer 17) ≠ .ok [] := by
  have hrange : ageEntry.annotation = .wholeRange ⟨18, 120, none⟩ := rfl
  obtain ⟨hmin, hmax, haccepts, -, -, -, -, -, hsmall⟩ :=
    whole_bounds_reported_iff (.ofTypes []) [] none hrange 17
  obtain ⟨hseen, -⟩ := hsmall (by decide) (by decide) (by decide)
  refine ⟨hrange, hmin.2 ⟨by decide, hseen⟩, ?_, fun haccepted => ?_⟩
  · exact Classical.byContradiction fun hreported => absurd (hmax.1 hreported).1 (by decide)
  · exact absurd (haccepts.1 haccepted).1 (by decide)

/-- The entry of a range of one number, the least whole number that is no floating point
number. -/
def oddEntry : Entry :=
  Entry.ofAnnotation (.wholeRange { minimum := 9007199254740993, maximum := 9007199254740993 })

/-- The number before it is below the range, and the strategy refuses it. The constraint engine
takes both for the same floating point number and reports neither bound. -/
theorem min_passes_below :
    (9007199254740992 : Int64) < 9007199254740993 ∧
    (ConstraintEngine.ofTypes (.ofTypes [])).check { rule := .min 9007199254740993 }
      (.integer 9007199254740992) = [] ∧
    (ConstraintEngine.ofTypes (.ofTypes [])).check { rule := .max 9007199254740993 }
      (.integer 9007199254740992) = [] ∧
    (Strategy.checkWholeRange oddEntry (.integer 9007199254740992)).toOption.map List.length
      = some 1 := by
  decide +kernel

end FieldGuard
