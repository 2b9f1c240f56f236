import TypedFlow.Proofs.Interval.Integers

/-!
# Ends within the limit

As long as ends stay within 2^52 every step from an integer to the next is exact. `Whole` intervals
are integer intervals that do, and the ends from which they are made need only be `Modest`.
-/
namespace TypedFlow

open Number (wholeLimit wholeLimit_lt)

namespace Bound

/-- A finite end is an included integer within the limit. -/
def Whole (b : Bound) : Prop := b.isFinite = true → ∃ z, b.ClosedAt z ∧ z.natAbs ≤ wholeLimit

/-- A finite end lies strictly within the limit. -/
def Moderate (b : Bound) : Prop :=
  ∀ p, b.isFinite = true → b.value.position? = some p → p.natAbs < wholeLimit * Number.unitsPerOne

/-- What ends of intersections of the two sorts may be. -/
def Modest (b : Bound) : Prop := b.Moderate ∨ b.Whole

theorem ClosedAt.whole {b : Bound} {z : ℤ} (h : b.ClosedAt z) (hz : z.natAbs ≤ wholeLimit) :
    b.Whole := fun _ => ⟨z, h, hz⟩

theorem Whole.integral {b : Bound} (h : b.Whole) : b.Integral := fun hf =>
  (h hf).imp fun _ hz => hz.1

variable {b : Bound}

theorem Modest.position_le (h : b.Modest) {p : ℤ} (hf : b.isFinite = true)
    (hp : b.value.position? = some p) :
    p.natAbs ≤ wholeLimit * Number.unitsPerOne ∧
      (b.inclusive = false → p.natAbs < wholeLimit * Number.unitsPerOne) := by
  rcases h with h | h
  · have hlt := h p hf hp
    exact ⟨hlt.le, fun _ => hlt⟩
  · obtain ⟨z, hz, hle⟩ := h hf
    obtain rfl := Option.some.inj (hp.symm.trans hz.holds.position)
    rw [Int.natAbs_mul, Int.natAbs_natCast]
    refine ⟨Nat.mul_le_mul_right _ hle, fun hopen => ?_⟩
    rw [hz.inclusive] at hopen
    cases hopen

theorem moderate_of {a : Number} {z : ℤ} (h : a.Holds z) (hz : z.natAbs < wholeLimit)
    (inclusive : Bool) : (of a inclusive).Moderate := by
  intro p _ hp
  obtain rfl := Option.some.inj (h.position.symm.trans hp)
  rw [Int.natAbs_mul, Int.natAbs_natCast]
  exact Nat.mul_lt_mul_of_pos_right hz Number.unitsPerOne_pos

theorem moderate_closed {a : Number} {z : ℤ} (h : a.Holds z) (hz : z.natAbs < wholeLimit) :
    (closed a).Moderate := moderate_of h hz true

theorem moderate_of_infinite (h : b.isFinite = false) : b.Moderate := by
  intro p hf
  rw [h] at hf
  cases hf

end Bound

namespace Interval

structure Moderate (i : Interval) : Prop where
  lower : i.lower.Moderate
  upper : i.upper.Moderate

theorem moderate_unbounded : unbounded.Moderate where
  lower := Bound.moderate_of_infinite rfl
  upper := Bound.moderate_of_infinite rfl

/-- An integer interval with its ends within the limit. -/
abbrev Whole (i : Interval) : Prop := EndsIn Bound.Whole i

/-- A real interval with moderate ends. -/
abbrev Tame (i : Interval) : Prop := EndsIn Bound.Moderate i

-- Within the limit every step is exact, and the ends stay where they should.

section Rounding
variable {b : Bound} (h : b.Modest)
include h

theorem natAbs_le_of_modest {z : ℤ} (hz : b.value.Holds z) : z.natAbs ≤ wholeLimit := by
  have hle := (h.position_le hz.isFinite hz.position).1
  rw [Int.natAbs_mul, Int.natAbs_natCast] at hle
  exact Nat.le_of_mul_le_mul_right hle Number.unitsPerOne_pos

theorem whole_of_modest (hb : b.Integral) : b.Whole := by
  intro hf
  obtain ⟨z, hz⟩ := hb hf
  exact ⟨z, hz, natAbs_le_of_modest h hz.holds⟩

theorem stepsUp_of_modest : b.StepsUp := by
  intro _ hceil hf
  have hlimit := wholeLimit_lt
  have hfinite : b.isFinite = true := Number.isFinite_of_ceil hf
  have hnan := Number.isNan_of_isFinite hfinite
  obtain ⟨z, hz, -⟩ := exists_ceil_end hfinite
  have hplace := (Number.beq_iff (Number.isNan_of_isFinite hz.isFinite) hnan).1 hceil
  have hle := natAbs_le_of_modest h (Number.holds_of_place hnan (hplace.symm.trans hz.place_eq))
  exact hz.exactSum Number.holds_one (by omega) hf

theorem stepsDown_of_modest : b.StepsDown := by
  intro _ hfloor hf
  have hlimit := wholeLimit_lt
  have hfinite : b.isFinite = true := Number.isFinite_of_floor hf
  have hnan := Number.isNan_of_isFinite hfinite
  obtain ⟨z, hz, -⟩ := exists_floor_end hfinite
  have hplace := (Number.beq_iff (Number.isNan_of_isFinite hz.isFinite) hnan).1 hfloor
  have hle := natAbs_le_of_modest h (Number.holds_of_place hnan (hplace.symm.trans hz.place_eq))
  exact hz.exactSum Number.holds_one.neg (by omega) hf

theorem whole_firstInteger : (firstInteger b).Whole := by
  by_cases hf : b.isFinite = true
  · obtain ⟨z, hz, hiff⟩ := exists_firstInteger hf (stepsUp_of_modest h)
    obtain ⟨p, hp⟩ := Number.exists_position (Number.isNan_of_isFinite hf)
    obtain ⟨hle, hopen⟩ := h.position_le hf hp
    -- the limit is a member, and nothing below its opposite is
    have hupper : b.Below wholeLimit := by
      have hplace := (Number.place_le_int_iff hf hp wholeLimit).2 (by omega)
      refine ⟨Number.isNan_of_isFinite hf, hplace.lt_or_eq.imp_right fun heq => ⟨?_, heq⟩⟩
      by_contra hincl
      have hlt := hopen (by simpa using hincl)
      have hge := (Number.int_le_place_iff hf hp wholeLimit).1 heq.ge
      omega
    have hlower : ((-(wholeLimit : ℤ) : ℤ) : ℝ) ≤ (z : ℝ) := by
      have hplace := (Number.int_le_place_iff hf hp (-wholeLimit)).2
        (by rw [Int.neg_mul]; omega)
      exact EReal.coe_le_coe_iff.1 (hplace.trans ((hiff z).2 le_rfl).place_le)
    have hle := (hiff wholeLimit).1 hupper
    rw [Int.cast_le] at hlower
    exact hz.whole (by omega)
  · intro hfinite
    rw [firstInteger, if_neg hf] at hfinite
    exact absurd hfinite hf

theorem whole_lastInteger : (lastInteger b).Whole := by
  by_cases hf : b.isFinite = true
  · obtain ⟨z, hz, hiff⟩ := exists_lastInteger hf (stepsDown_of_modest h)
    obtain ⟨p, hp⟩ := Number.exists_position (Number.isNan_of_isFinite hf)
    obtain ⟨hle, hopen⟩ := h.position_le hf hp
    have hlower : b.Above (-(wholeLimit : ℤ) : ℤ) := by
      have hplace := (Number.int_le_place_iff hf hp (-wholeLimit)).2
        (by rw [Int.neg_mul]; omega)
      refine ⟨Number.isNan_of_isFinite hf, hplace.lt_or_eq.imp_right fun heq => ⟨?_, heq⟩⟩
      by_contra hincl
      have hlt := hopen (by simpa using hincl)
      have hge := (Number.place_le_int_iff hf hp (-wholeLimit)).1 heq.ge
      rw [Int.neg_mul] at hge
      omega
    have hupper : (z : ℝ) ≤ ((wholeLimit : ℤ) : ℝ) := by
      have hplace := (Number.place_le_int_iff hf hp wholeLimit).2 (by omega)
      exact EReal.coe_le_coe_iff.1 (((hiff z).2 le_rfl).le_place.trans hplace)
    have hle := (hiff _).1 hlower
    rw [Int.cast_le] at hupper
    exact hz.whole (by omega)
  · intro hfinite
    rw [lastInteger, if_neg hf] at hfinite
    exact absurd hfinite hf

end Rounding

section Steps
variable {i j cover k : Interval}

theorem Whole.integral (h : i.Whole) : i.Integral := h.imp fun _ => Bound.Whole.integral

theorem rounds_of_modest (hl : i.lower.Modest) (hu : i.upper.Modest) : i.Rounds :=
  ⟨stepsUp_of_modest hl, stepsDown_of_modest hu⟩

theorem whole_integers? (hl : i.lower.Modest) (hu : i.upper.Modest) (h : i.integers? = some k) :
    k.Whole :=
  endsIn_integers? h (whole_firstInteger hl) (whole_lastInteger hu)

theorem Whole.reaches (hi : i.Whole) : i.Reaches j := by
  intro _ _ hf hone
  have hlimit := wholeLimit_lt
  obtain ⟨z, hz, hle⟩ := hi.upper hf
  exact hz.holds.exactSum Number.holds_one (by omega) hf hone

/-- A cover from which one step outwards stays within the limit. -/
structure Inner (cover : Interval) : Prop where
  whole : cover.Whole
  lower_gt : ∀ z, cover.lower.ClosedAt z → -(wholeLimit : ℤ) < z
  upper_lt : ∀ z, cover.upper.ClosedAt z → z < wholeLimit

theorem Inner.leaves (hc : cover.Inner) : i.Leaves cover := by
  have hlimit := wholeLimit_lt
  constructor
  · intro _ hf hone
    obtain ⟨z, hz, hle⟩ := hc.whole.lower hf
    exact hz.holds.exactSum Number.holds_one.neg (by omega) hf hone
  · intro _ hf hone
    obtain ⟨z, hz, hle⟩ := hc.whole.upper hf
    exact hz.holds.exactSum Number.holds_one (by omega) hf hone

theorem Inner.previous (hc : cover.Inner) : (Bound.closed (cover.lower.value - 1)).Whole := by
  intro hf
  have hlimit := wholeLimit_lt
  obtain ⟨z, hz, hle⟩ := hc.whole.lower (Number.isFinite_of_add (b := -1) hf).1
  have hgt := hc.lower_gt z hz
  exact ⟨z - 1, Bound.closedAt_closed (hz.holds.sub_one (by omega)), by omega⟩

theorem Inner.next (hc : cover.Inner) : (Bound.closed (cover.upper.value + 1)).Whole := by
  intro hf
  have hlimit := wholeLimit_lt
  obtain ⟨z, hz, hle⟩ := hc.whole.upper (Number.isFinite_of_add hf).1
  have hlt := hc.upper_lt z hz
  exact ⟨z + 1, Bound.closedAt_closed (hz.holds.add_one (by omega)), by omega⟩

theorem isFinite_of_firstInteger {b : Bound} {z : ℤ} (hz : (firstInteger b).ClosedAt z) :
    b.isFinite = true := by
  by_contra hf
  have hfinite := hz.holds.isFinite
  rw [firstInteger, if_neg hf] at hfinite
  exact hf hfinite

theorem isFinite_of_lastInteger {b : Bound} {z : ℤ} (hz : (lastInteger b).ClosedAt z) :
    b.isFinite = true := by
  by_contra hf
  have hfinite := hz.holds.isFinite
  rw [lastInteger, if_neg hf] at hfinite
  exact hf hfinite

theorem lt_firstInteger {b : Bound} {z : ℤ} (h : b.Moderate) (hz : (firstInteger b).ClosedAt z) :
    -(wholeLimit : ℤ) < z := by
  have hf := isFinite_of_firstInteger hz
  obtain ⟨p, hp⟩ := Number.exists_position (Number.isNan_of_isFinite hf)
  have hlt := h p hf hp
  obtain ⟨y, hy, hiff⟩ := exists_firstInteger hf (stepsUp_of_modest (.inl h))
  obtain rfl := hz.unique hy
  by_contra hle
  have hbelow := (hiff (-wholeLimit)).2 (not_lt.1 hle)
  have hplace := (Number.place_le_int_iff hf hp (-wholeLimit)).1 hbelow.place_le
  rw [Int.neg_mul] at hplace
  omega

theorem lastInteger_lt {b : Bound} {z : ℤ} (h : b.Moderate) (hz : (lastInteger b).ClosedAt z) :
    z < wholeLimit := by
  have hf := isFinite_of_lastInteger hz
  obtain ⟨p, hp⟩ := Number.exists_position (Number.isNan_of_isFinite hf)
  have hlt := h p hf hp
  obtain ⟨y, hy, hiff⟩ := exists_lastInteger hf (stepsDown_of_modest (.inl h))
  obtain rfl := hz.unique hy
  by_contra hle
  have habove := (hiff wholeLimit).2 (not_lt.1 hle)
  have hplace := (Number.int_le_place_iff hf hp wholeLimit).1 habove.le_place
  omega

theorem inner_of_integers? (hl : i.lower.Moderate) (hu : i.upper.Moderate)
    (h : i.integers? = some k) : k.Inner := by
  have hwhole := whole_integers? (.inl hl) (.inl hu) h
  obtain ⟨rfl, -⟩ := nonempty?_eq_some h
  exact ⟨hwhole, fun z hz => lt_firstInteger hl hz, fun z hz => lastInteger_lt hu hz⟩

end Steps

end Interval
end TypedFlow
