import TypedFlow.Proofs.Interval.Members
import TypedFlow.Proofs.Number.Exact

/-!
# Integer intervals

An integer interval stands for its integers, and its finite ends are included integers. Rounding an
end to an integer and taking a step from it keep this. What they do to the members is known where
the steps are exact: then they lead to the next integer.
-/
namespace TypedFlow

open Number (ExactSum)

namespace Bound

/-- An included end at an integer. -/
structure ClosedAt (b : Bound) (z : ℤ) : Prop where
  inclusive : b.inclusive = true
  holds : b.value.Holds z

/-- A finite end is an included integer. -/
def Integral (b : Bound) : Prop := b.isFinite = true → ∃ z, b.ClosedAt z

/-- Leaving out an excluded lower end at an integer is an exact step. -/
def StepsUp (b : Bound) : Prop :=
  b.inclusive = false → (b.value.ceil == b.value) = true → ExactSum b.value.ceil 1

/-- Leaving out an excluded upper end at an integer is an exact step. -/
def StepsDown (b : Bound) : Prop :=
  b.inclusive = false → (b.value.floor == b.value) = true → ExactSum b.value.floor (-1)

theorem isNan_of_closedAt {b : Bound} {z : ℤ} (h : b.ClosedAt z) : b.value.isNan = false :=
  Number.isNan_of_isFinite h.holds.isFinite

theorem closedAt_closed {a : Number} {z : ℤ} (h : a.Holds z) : (closed a).ClosedAt z where
  inclusive := by
    simp [closed, Bound.of, h.isFinite]
  holds := h

theorem ClosedAt.integral {b : Bound} {z : ℤ} (h : b.ClosedAt z) : b.Integral := fun _ => ⟨z, h⟩

section Neighbours
variable {b : Bound} (h : b.Integral)
include h

-- A step that is rounded still leads to an integer.

theorem Integral.next : (closed (b.value + 1)).Integral := by
  intro hf
  obtain ⟨z, hz⟩ := h (Number.isFinite_of_add hf).1
  obtain ⟨w, hw⟩ := hz.holds.exists_add Number.holds_one hf
  exact ⟨w, closedAt_closed hw⟩

theorem Integral.previous : (closed (b.value - 1)).Integral := by
  intro hf
  obtain ⟨z, hz⟩ := h (Number.isFinite_of_add (b := -1) hf).1
  obtain ⟨w, hw⟩ := hz.holds.exists_add Number.holds_one.neg hf
  exact ⟨w, closedAt_closed hw⟩

end Neighbours

section Cuts
variable {b : Bound} {z : ℤ}

theorem coe_le_coe {z w : ℤ} : (((z : ℝ) : EReal) ≤ ((w : ℝ) : EReal)) ↔ z ≤ w := by
  rw [EReal.coe_le_coe_iff, Int.cast_le]

theorem coe_lt_coe {z w : ℤ} : (((z : ℝ) : EReal) < ((w : ℝ) : EReal)) ↔ z < w := by
  rw [EReal.coe_lt_coe_iff, Int.cast_lt]

theorem ClosedAt.below_iff (h : b.ClosedAt z) (w : ℤ) : b.Below w ↔ z ≤ w := by
  simp only [Below]
  rw [h.holds.place_eq, h.inclusive, coe_lt_coe, EReal.coe_eq_coe_iff, Int.cast_inj]
  have hnan := isNan_of_closedAt h
  constructor
  · intro hh
    rcases hh with ⟨-, hlt | ⟨-, rfl⟩⟩
    · exact hlt.le
    · exact le_rfl
  · intro hle
    refine ⟨hnan, ?_⟩
    rcases hle.lt_or_eq with hlt | heq
    · exact .inl hlt
    · exact .inr ⟨rfl, heq⟩

theorem ClosedAt.above_iff (h : b.ClosedAt z) (w : ℤ) : b.Above w ↔ w ≤ z := by
  simp only [Above]
  rw [h.holds.place_eq, h.inclusive, coe_lt_coe, EReal.coe_eq_coe_iff, Int.cast_inj]
  have hnan := isNan_of_closedAt h
  constructor
  · intro hh
    rcases hh with ⟨-, hlt | ⟨-, rfl⟩⟩
    · exact hlt.le
    · exact le_rfl
  · intro hle
    refine ⟨hnan, ?_⟩
    rcases hle.lt_or_eq with hlt | heq
    · exact .inl hlt
    · exact .inr ⟨rfl, heq⟩

theorem ClosedAt.lowerCut_eq (h : b.ClosedAt z) : b.lowerCut = Cut.before z := by
  rw [lowerCut, h.holds.place_eq, h.inclusive]
  rfl

theorem ClosedAt.upperCut_eq (h : b.ClosedAt z) : b.upperCut = Cut.after z := by
  rw [upperCut, h.holds.place_eq, h.inclusive]
  rfl

theorem ClosedAt.le_of_below {x : ℝ} (hz : b.ClosedAt z) (h : b.Below x) : (z : ℝ) ≤ x := by
  have hle := h.place_le
  rwa [hz.holds.place_eq, EReal.coe_le_coe_iff] at hle

theorem ClosedAt.ge_of_above {x : ℝ} (hz : b.ClosedAt z) (h : b.Above x) : x ≤ (z : ℝ) := by
  have hle := h.le_place
  rwa [hz.holds.place_eq, EReal.coe_le_coe_iff] at hle

theorem ClosedAt.unique {w : ℤ} (h : b.ClosedAt z) (h' : b.ClosedAt w) : z = w := by
  apply le_antisymm
  · exact (h.below_iff w).1 ((h'.below_iff w).2 le_rfl)
  · exact (h'.below_iff z).1 ((h.below_iff z).2 le_rfl)

end Cuts

end Bound

namespace Interval

section Neighbours
variable {x : EReal} {z : ℤ}

/-- The integers above a place start with the least one that is not below it, or with the next. -/
theorem lt_int_iff (h : ∀ w : ℤ, x ≤ ((w : ℝ) : EReal) ↔ z ≤ w) (w : ℤ) :
    x < ((w : ℝ) : EReal) ↔ (if x = ((z : ℝ) : EReal) then z + 1 else z) ≤ w := by
  by_cases heq : x = ((z : ℝ) : EReal)
  · rw [if_pos heq, heq, Bound.coe_lt_coe]
    exact Int.lt_iff_add_one_le
  · rw [if_neg heq, ← h]
    constructor
    · exact le_of_lt
    · intro hw
      refine lt_of_le_of_ne hw fun hw' => heq ?_
      have hzw := (h w).1 hw
      have hwz : w ≤ z := by
        rw [← Bound.coe_le_coe, ← hw']
        exact (h z).2 le_rfl
      rw [hw', le_antisymm hwz hzw]

theorem int_lt_iff (h : ∀ w : ℤ, ((w : ℝ) : EReal) ≤ x ↔ w ≤ z) (w : ℤ) :
    ((w : ℝ) : EReal) < x ↔ w ≤ (if x = ((z : ℝ) : EReal) then z - 1 else z) := by
  by_cases heq : x = ((z : ℝ) : EReal)
  · rw [if_pos heq, heq, Bound.coe_lt_coe]
    exact Int.le_sub_one_iff.symm
  · rw [if_neg heq, ← h]
    constructor
    · exact le_of_lt
    · intro hw
      refine lt_of_le_of_ne hw fun hw' => heq ?_
      have hwz := (h w).1 hw
      have hzw : z ≤ w := by
        rw [← Bound.coe_le_coe, hw']
        exact (h z).2 le_rfl
      rw [← hw', le_antisymm hwz hzw]

end Neighbours

section Rounding
variable {b : Bound}

section Finite
variable (hf : b.isFinite = true)
include hf

theorem exists_ceil_end : ∃ z, b.value.ceil.Holds z ∧
    ∀ w : ℤ, b.value.place ≤ ((w : ℝ) : EReal) ↔ z ≤ w := by
  obtain ⟨p, hp⟩ := Number.exists_position (Number.isNan_of_isFinite hf)
  obtain ⟨z, hz, hceil⟩ := Number.exists_ceil hf hp
  exact ⟨z, hz, fun w => (Number.place_le_int_iff hf hp w).trans (hceil w).symm⟩

theorem exists_floor_end : ∃ z, b.value.floor.Holds z ∧
    ∀ w : ℤ, ((w : ℝ) : EReal) ≤ b.value.place ↔ w ≤ z := by
  obtain ⟨p, hp⟩ := Number.exists_position (Number.isNan_of_isFinite hf)
  obtain ⟨z, hz, hfloor⟩ := Number.exists_floor hf hp
  exact ⟨z, hz, fun w => (Number.int_le_place_iff hf hp w).trans (hfloor w).symm⟩

theorem exists_firstInteger (h : b.StepsUp) :
    ∃ z, (firstInteger b).ClosedAt z ∧ ∀ w : ℤ, b.Below w ↔ z ≤ w := by
  have hnan := Number.isNan_of_isFinite hf
  obtain ⟨z, hz, hplace⟩ := exists_ceil_end hf
  have hbeq : (b.value.ceil == b.value) = true ↔ b.value.place = ((z : ℝ) : EReal) := by
    rw [Number.beq_iff (Number.isNan_of_isFinite hz.isFinite) hnan, hz.place_eq, eq_comm]
  unfold firstInteger
  rw [if_pos hf]
  dsimp only
  cases hincl : b.inclusive with
  | true =>
    refine ⟨z, Bound.closedAt_closed hz, fun w => ?_⟩
    rw [← hplace, le_iff_lt_or_eq]
    simp [Bound.Below, hnan, hincl]
  | false =>
    have hbelow : ∀ w : ℤ, b.Below w ↔ b.value.place < ((w : ℝ) : EReal) := fun w => by
      simp [Bound.Below, hnan, hincl]
    have hnext := lt_int_iff hplace
    by_cases heq : b.value.place = ((z : ℝ) : EReal)
    · have hexact := h hincl (hbeq.2 heq)
      rw [hbeq.2 heq]
      rw [if_pos heq] at hnext
      exact ⟨z + 1, Bound.closedAt_closed (hexact.add_one hz), fun w => (hbelow w).trans (hnext w)⟩
    · rw [Bool.eq_false_iff.2 fun hb => heq (hbeq.1 hb)]
      rw [if_neg heq] at hnext
      exact ⟨z, Bound.closedAt_closed hz, fun w => (hbelow w).trans (hnext w)⟩

theorem exists_lastInteger (h : b.StepsDown) :
    ∃ z, (lastInteger b).ClosedAt z ∧ ∀ w : ℤ, b.Above w ↔ w ≤ z := by
  have hnan := Number.isNan_of_isFinite hf
  obtain ⟨z, hz, hplace⟩ := exists_floor_end hf
  have hbeq : (b.value.floor == b.value) = true ↔ b.value.place = ((z : ℝ) : EReal) := by
    rw [Number.beq_iff (Number.isNan_of_isFinite hz.isFinite) hnan, hz.place_eq, eq_comm]
  unfold lastInteger
  rw [if_pos hf]
  dsimp only
  cases hincl : b.inclusive with
  | true =>
    refine ⟨z, Bound.closedAt_closed hz, fun w => ?_⟩
    rw [← hplace, le_iff_lt_or_eq]
    simp [Bound.Above, hnan, hincl]
  | false =>
    have habove : ∀ w : ℤ, b.Above w ↔ ((w : ℝ) : EReal) < b.value.place := fun w => by
      simp [Bound.Above, hnan, hincl]
    have hprevious := int_lt_iff hplace
    by_cases heq : b.value.place = ((z : ℝ) : EReal)
    · have hexact := h hincl (hbeq.2 heq)
      rw [hbeq.2 heq]
      rw [if_pos heq] at hprevious
      exact ⟨z - 1, Bound.closedAt_closed (hexact.sub_one hz),
        fun w => (habove w).trans (hprevious w)⟩
    · rw [Bool.eq_false_iff.2 fun hb => heq (hbeq.1 hb)]
      rw [if_neg heq] at hprevious
      exact ⟨z, Bound.closedAt_closed hz, fun w => (habove w).trans (hprevious w)⟩

end Finite

theorem integral_firstInteger (b : Bound) : (firstInteger b).Integral := by
  unfold firstInteger
  split
  · rename_i hf
    obtain ⟨z, hz, -⟩ := exists_ceil_end hf
    dsimp only
    split
    · exact (Bound.closedAt_closed hz).integral.next
    · exact (Bound.closedAt_closed hz).integral
  · rename_i hf
    exact fun hfinite => absurd hfinite hf

theorem integral_lastInteger (b : Bound) : (lastInteger b).Integral := by
  unfold lastInteger
  split
  · rename_i hf
    obtain ⟨z, hz, -⟩ := exists_floor_end hf
    dsimp only
    split
    · exact (Bound.closedAt_closed hz).integral.previous
    · exact (Bound.closedAt_closed hz).integral
  · rename_i hf
    exact fun hfinite => absurd hfinite hf

theorem below_firstInteger (h : b.StepsUp) (w : ℤ) : (firstInteger b).Below w ↔ b.Below w := by
  by_cases hf : b.isFinite = true
  · obtain ⟨z, hz, hiff⟩ := exists_firstInteger hf h
    rw [hz.below_iff, hiff]
  · rw [firstInteger, if_neg hf]

theorem above_lastInteger (h : b.StepsDown) (w : ℤ) : (lastInteger b).Above w ↔ b.Above w := by
  by_cases hf : b.isFinite = true
  · obtain ⟨z, hz, hiff⟩ := exists_lastInteger hf h
    rw [hz.above_iff, hiff]
  · rw [lastInteger, if_neg hf]

end Rounding

/-- An interval that is not empty and whose ends have a property. -/
structure EndsIn (Q : Bound → Prop) (i : Interval) : Prop where
  nonempty : i.isEmpty = false
  lower : Q i.lower
  upper : Q i.upper

/-- An interval that is not empty and whose finite ends are included integers. -/
abbrev Integral (i : Interval) : Prop := EndsIn Bound.Integral i

/-- The integers of an interval are found by exact steps. -/
structure Rounds (i : Interval) : Prop where
  lower : i.lower.StepsUp
  upper : i.upper.StepsDown

/-- Where one step from the end of `i` is found to reach `j`, it is exact. -/
def Reaches (i j : Interval) : Prop :=
  i.upper.value.lt j.lower.value = true → (i.upper.value + 1).lt j.lower.value = false →
    ExactSum i.upper.value 1

/-- The steps from a cover to what it leaves of an interval are exact. -/
structure Leaves (i cover : Interval) : Prop where
  below : i.lower.value.lt cover.lower.value = true → ExactSum cover.lower.value (-1)
  above : cover.upper.value.lt i.upper.value = true → ExactSum cover.upper.value 1

section Ends
variable {Q R : Bound → Prop} {i j cover : Interval}

theorem EndsIn.imp (h : i.EndsIn Q) (hQR : ∀ b, Q b → R b) : i.EndsIn R where
  nonempty := h.nonempty
  lower := hQR _ h.lower
  upper := hQR _ h.upper

theorem EndsIn.hull (hi : i.EndsIn Q) (hj : j.EndsIn Q) : (i.hull j).EndsIn Q where
  nonempty := isEmpty_hull hi.nonempty hj.nonempty
  lower := Bound.looserLower_of_both hi.lower hj.lower
  upper := Bound.looserUpper_of_both hi.upper hj.upper

theorem endsIn_integers? {k : Interval} (h : i.integers? = some k) (hl : Q (firstInteger i.lower))
    (hu : Q (lastInteger i.upper)) : k.EndsIn Q := by
  obtain ⟨rfl, hne⟩ := nonempty?_eq_some h
  exact ⟨hne, hl, hu⟩

theorem integral_integers? {k : Interval} (h : i.integers? = some k) : k.Integral :=
  endsIn_integers? h (integral_firstInteger _) (integral_lastInteger _)

theorem EndsIn.withoutIntegers (hi : i.EndsIn Q) (hl : Q (.closed (cover.lower.value - 1)))
    (hu : Q (.closed (cover.upper.value + 1))) : ∀ k ∈ i.withoutIntegers cover, k.EndsIn Q := by
  intro k hk
  simp only [Interval.withoutIntegers] at hk
  split at hk
  · rw [List.mem_singleton] at hk
    exact hk ▸ hi
  · rcases List.mem_append.1 hk with hk | hk
    · split at hk
      · obtain ⟨rfl, hne⟩ := nonempty?_eq_some (Option.mem_toList.1 hk)
        exact ⟨hne, hi.lower, hl⟩
      · cases hk
    · split at hk
      · obtain ⟨rfl, hne⟩ := nonempty?_eq_some (Option.mem_toList.1 hk)
        exact ⟨hne, hu, hi.upper⟩
      · cases hk

end Ends

section Integral
variable {i j cover : Interval}

theorem Integral.lower_cases (h : i.Integral) :
    (∀ x, i.lower.Below x) ∨ ∃ z, i.lower.ClosedAt z := by
  by_cases hf : i.lower.isFinite = true
  · exact .inr (h.lower hf)
  · obtain ⟨x, hx⟩ := exists_mem h.nonempty
    exact .inl (hx.1.of_infinite (by simpa using hf))

theorem Integral.upper_cases (h : i.Integral) :
    (∀ x, i.upper.Above x) ∨ ∃ z, i.upper.ClosedAt z := by
  by_cases hf : i.upper.isFinite = true
  · exact .inr (h.upper hf)
  · obtain ⟨x, hx⟩ := exists_mem h.nonempty
    exact .inl (hx.2.of_infinite (by simpa using hf))

theorem Integral.exists_int (h : i.Integral) : ∃ w : ℤ, i.Mem w := by
  obtain ⟨x, hx⟩ := exists_mem h.nonempty
  rcases h.lower_cases with hall | ⟨z, hz⟩
  · rcases h.upper_cases with hall' | ⟨z, hz⟩
    · exact ⟨0, hall _, hall' _⟩
    · exact ⟨z, hall _, (hz.above_iff z).2 le_rfl⟩
  · exact ⟨z, (hz.below_iff z).2 le_rfl, hx.2.mono (hz.le_of_below hx.1)⟩

theorem Integral.exists_le (h : i.Integral) {x : ℝ} (hx : i.lower.Below x) :
    ∃ z : ℤ, i.Mem z ∧ (z : ℝ) ≤ x := by
  obtain ⟨w, hw⟩ := h.exists_int
  rcases h.lower_cases with hall | ⟨z, hz⟩
  · exact ⟨min w ⌊x⌋, ⟨hall _, hw.2.mono (Int.cast_le.2 (min_le_left _ _))⟩,
      (Int.cast_le.2 (min_le_right _ _)).trans (Int.floor_le x)⟩
  · exact ⟨z, ⟨(hz.below_iff z).2 le_rfl, hw.2.mono (hz.le_of_below hw.1)⟩, hz.le_of_below hx⟩

theorem Integral.exists_ge (h : i.Integral) {x : ℝ} (hx : i.upper.Above x) :
    ∃ z : ℤ, i.Mem z ∧ x ≤ (z : ℝ) := by
  obtain ⟨w, hw⟩ := h.exists_int
  rcases h.upper_cases with hall | ⟨z, hz⟩
  · exact ⟨max w ⌈x⌉, ⟨hw.1.mono (Int.cast_le.2 (le_max_left _ _)), hall _⟩,
      (Int.le_ceil x).trans (Int.cast_le.2 (le_max_right _ _))⟩
  · exact ⟨z, ⟨hw.1.mono (hz.ge_of_above hw.2), (hz.above_iff z).2 le_rfl⟩, hz.ge_of_above hx⟩

/-- An interval with all integers of an integer interval has all its numbers. -/
theorem Integral.mem_of_integers (h : i.Integral) (hall : ∀ z : ℤ, i.Mem z → j.Mem z) {x : ℝ}
    (hx : i.Mem x) : j.Mem x := by
  obtain ⟨z, hz, hzx⟩ := h.exists_le hx.1
  obtain ⟨w, hw, hxw⟩ := h.exists_ge hx.2
  exact ⟨(hall z hz).1.mono hzx, (hall w hw).2.mono hxw⟩

theorem lists_integers? (h : i.Rounds) :
    Lists Integral ((↑) : ℤ → ℝ) i.integers?.toList (fun w => i.Mem w) := by
  have hintegral : ∀ k, k = (⟨firstInteger i.lower, lastInteger i.upper⟩ : Interval) →
      k.isEmpty = false → k.Integral := by
    rintro k rfl hne
    exact ⟨hne, integral_firstInteger _, integral_lastInteger _⟩
  apply (Lists.of_nonempty? (hintegral _ rfl)).congr
  intro w
  exact and_congr (below_firstInteger h.lower w) (above_lastInteger h.upper w)

/-- Where integer intervals connect, what lies behind the one and before the other is in neither
gap. -/
theorem no_gap (hi : i.Integral) (hj : j.Integral) (h : i.connectsIntegers j = true)
    (hreach : i.Reaches j) (w : ℤ) : i.upper.Above w ∨ j.lower.Below w := by
  rcases hi.upper_cases with hall | ⟨z, hz⟩
  · exact .inl (hall w)
  · rcases hj.lower_cases with hall | ⟨z', hz'⟩
    · exact .inr (hall w)
    · rw [hz.above_iff, hz'.below_iff]
      have hnan := Bound.isNan_of_closedAt hz'
      simp only [connectsIntegers] at h
      rw [Bool.and_eq_true, Bool.not_eq_true'] at h
      rcases le_or_gt z' z with hle | hlt
      · omega
      · have hbehind : i.upper.value.lt j.lower.value = true := by
          rwa [Number.lt_iff (Bound.isNan_of_closedAt hz) hnan, hz.holds.place_eq,
            hz'.holds.place_eq, Bound.coe_lt_coe]
        have hnext := (hreach hbehind h.1).add_one hz.holds
        rw [← Bool.not_eq_true, Number.lt_iff (Number.isNan_of_isFinite hnext.isFinite) hnan,
          hnext.place_eq, hz'.holds.place_eq, Bound.coe_lt_coe] at h
        omega

theorem connectsIntegers_comm (i j : Interval) : i.connectsIntegers j = j.connectsIntegers i :=
  Bool.and_comm _ _

/-- Of what lies in no gap between two intervals, their hull has what one of them has. -/
theorem mem_hull_of_no_gap {x : ℝ} (hi : i.Integral) (hj : j.Integral)
    (hbehind : i.upper.Above x ∨ j.lower.Below x) (hbefore : j.upper.Above x ∨ i.lower.Below x) :
    (i.hull j).Mem x ↔ i.Mem x ∨ j.Mem x := by
  have hci := clean_of_isEmpty hi.nonempty
  have hcj := clean_of_isEmpty hj.nonempty
  rw [mem_hull_iff hci hcj, min_le_iff, lt_max_iff, ← Bound.below_iff hci.lower,
    ← Bound.below_iff hcj.lower, ← Bound.above_iff hci.upper, ← Bound.above_iff hcj.upper]
  simp only [Mem]
  tauto

theorem mem_hull_integers (hi : i.Integral) (hj : j.Integral) (h : i.connectsIntegers j = true)
    (hij : i.Reaches j) (hji : j.Reaches i) (w : ℤ) : (i.hull j).Mem w ↔ i.Mem w ∨ j.Mem w :=
  mem_hull_of_no_gap hi hj (no_gap hi hj h hij w)
    (no_gap hj hi ((connectsIntegers_comm j i).trans h) hji w)

/-- A step that is rounded does not pass an integer that is a number, so no such integer is in a gap
either. -/
theorem no_gap_of_holds (hi : i.Integral) (hj : j.Integral) (h : i.connectsIntegers j = true)
    {a : Number} {w : ℤ} (ha : a.Holds w) : i.upper.Above w ∨ j.lower.Below w := by
  rcases hi.upper_cases with hall | ⟨z, hz⟩
  · exact .inl (hall w)
  · rcases hj.lower_cases with hall | ⟨z', hz'⟩
    · exact .inr (hall w)
    · rw [hz.above_iff, hz'.below_iff]
      by_contra hgap
      have hone := Number.holds_one
      have hstep : (i.upper.value + 1).place ≤ a.place := by
        apply Number.place_add_le hz.holds.isFinite hone.isFinite
          (Number.isNan_of_isFinite ha.isFinite)
        rw [hz.holds.place_eq, hone.place_eq, ha.place_eq, ← EReal.coe_add, ← Int.cast_add,
          Bound.coe_le_coe]
        omega
      have hbefore : a.place < j.lower.value.place := by
        rw [ha.place_eq, hz'.holds.place_eq, Bound.coe_lt_coe]
        omega
      have hlt := (Number.lt_iff (Number.isNan_add hz.holds.isFinite hone.isFinite)
        (Bound.isNan_of_closedAt hz')).2 (hstep.trans_lt hbefore)
      simp [connectsIntegers, hlt] at h

theorem mem_hull_of_holds (hi : i.Integral) (hj : j.Integral) (h : i.connectsIntegers j = true)
    {a : Number} {w : ℤ} (ha : a.Holds w) : (i.hull j).Mem w ↔ i.Mem w ∨ j.Mem w :=
  mem_hull_of_no_gap hi hj (no_gap_of_holds hi hj h ha)
    (no_gap_of_holds hj hi ((connectsIntegers_comm j i).trans h) ha)

section Without
variable (hi : i.Integral) (hc : cover.Integral) (h : i.Leaves cover) {x : ℝ} (hx : i.Mem x)
  (hcx : cover.Mem x)
include hi hc h hx hcx

/-- What is left below a cover that shares a number with the interval. -/
theorem lists_below : Lists Integral ((↑) : ℤ → ℝ)
    (if i.lower.value.lt cover.lower.value then
      (nonempty? ⟨i.lower, .closed (cover.lower.value - 1)⟩).toList else [])
    (fun w => i.Mem w ∧ ¬ cover.lower.Below w) := by
  rcases hc.lower_cases with hall | ⟨z, hz⟩
  · have hnot : ¬ i.lower.value.lt cover.lower.value = true := by
      intro hlt
      rw [Number.lt_iff hx.1.1 hcx.1.1] at hlt
      obtain ⟨y, -, hy⟩ := EReal.lt_iff_exists_real_btwn.1 hlt
      exact absurd (hall y).place_le (not_le.2 hy)
    rw [if_neg hnot]
    apply Lists.nil.congr
    simp [hall]
  · have hiff : i.lower.value.lt cover.lower.value = true ↔
        i.lower.value.place < ((z : ℝ) : EReal) := by
      rw [Number.lt_iff hx.1.1 hcx.1.1, hz.holds.place_eq]
    by_cases hlt : i.lower.value.lt cover.lower.value = true
    · have hprevious := Bound.closedAt_closed ((h.below hlt).sub_one hz.holds)
      rw [if_pos hlt]
      refine (Lists.of_nonempty? fun hne => ⟨hne, hi.lower, hprevious.integral⟩).congr ?_
      intro w
      simp only [Mem]
      rw [hprevious.above_iff, hz.below_iff, not_le, Int.le_sub_one_iff]
      constructor
      · intro hh
        obtain ⟨hl, hw⟩ := hh
        -- `x` lies in the cover, so what is below the cover is below `x`
        have hwx : (w : ℝ) ≤ x := (Int.cast_le.2 hw.le).trans (hz.le_of_below hcx.1)
        exact ⟨⟨hl, hx.2.mono hwx⟩, hw⟩
      · intro hh
        obtain ⟨⟨hl, -⟩, hw⟩ := hh
        exact ⟨hl, hw⟩
    · rw [if_neg hlt]
      apply Lists.nil.congr
      intro w
      rw [hiff, not_lt] at hlt
      rw [false_iff, not_and, not_not, hz.below_iff]
      intro hw
      rw [← Bound.coe_le_coe]
      exact hlt.trans hw.1.place_le

theorem lists_above : Lists Integral ((↑) : ℤ → ℝ)
    (if cover.upper.value.lt i.upper.value then
      (nonempty? ⟨.closed (cover.upper.value + 1), i.upper⟩).toList else [])
    (fun w => i.Mem w ∧ ¬ cover.upper.Above w) := by
  rcases hc.upper_cases with hall | ⟨z, hz⟩
  · have hnot : ¬ cover.upper.value.lt i.upper.value = true := by
      intro hlt
      rw [Number.lt_iff hcx.2.1 hx.2.1] at hlt
      obtain ⟨y, hy, -⟩ := EReal.lt_iff_exists_real_btwn.1 hlt
      exact absurd (hall y).le_place (not_le.2 hy)
    rw [if_neg hnot]
    apply Lists.nil.congr
    simp [hall]
  · have hiff : cover.upper.value.lt i.upper.value = true ↔
        ((z : ℝ) : EReal) < i.upper.value.place := by
      rw [Number.lt_iff hcx.2.1 hx.2.1, hz.holds.place_eq]
    by_cases hlt : cover.upper.value.lt i.upper.value = true
    · have hnext := Bound.closedAt_closed ((h.above hlt).add_one hz.holds)
      rw [if_pos hlt]
      refine (Lists.of_nonempty? fun hne => ⟨hne, hnext.integral, hi.upper⟩).congr ?_
      intro w
      simp only [Mem]
      rw [hnext.below_iff, hz.above_iff, not_le, Int.add_one_le_iff]
      constructor
      · intro hh
        obtain ⟨hw, hu⟩ := hh
        have hxw : x ≤ (w : ℝ) := (hz.ge_of_above hcx.2).trans (Int.cast_le.2 hw.le)
        exact ⟨⟨hx.1.mono hxw, hu⟩, hw⟩
      · intro hh
        obtain ⟨⟨-, hu⟩, hw⟩ := hh
        exact ⟨hw, hu⟩
    · rw [if_neg hlt]
      apply Lists.nil.congr
      intro w
      rw [hiff, not_lt] at hlt
      rw [false_iff, not_and, not_not, hz.above_iff]
      intro hw
      rw [← Bound.coe_le_coe]
      exact hw.2.le_place.trans hlt

end Without

theorem lists_withoutIntegers (hi : i.Integral) (hc : cover.Integral)
    (h : (∃ x, i.Mem x ∧ cover.Mem x) → i.Leaves cover) :
    Lists Integral ((↑) : ℤ → ℝ) (i.withoutIntegers cover) (fun w => i.Mem w ∧ ¬ cover.Mem w) := by
  have hci := clean_of_isEmpty hi.nonempty
  have hcc := clean_of_isEmpty hc.nonempty
  unfold withoutIntegers
  dsimp only
  cases hk : i.intersect? cover with
  | none =>
    rw [if_pos Option.isNone_none]
    apply (Lists.cons hi Lists.nil).congr
    intro w
    have hnone : ¬ (i.Mem w ∧ cover.Mem w) := by
      rw [← exists_intersect?_iff hci hcc, hk]
      simp
    tauto
  | some k =>
    have hne : k.isEmpty = false := by
      obtain ⟨rfl, hne⟩ := nonempty?_eq_some hk
      exact hne
    obtain ⟨x, hx⟩ := exists_mem hne
    obtain ⟨hix, hcx⟩ := (exists_intersect?_iff hci hcc).1 ⟨k, hk, hx⟩
    have hleaves := h ⟨x, hix, hcx⟩
    rw [if_neg (by simp)]
    apply ((lists_below hi hc hleaves hix hcx).append (lists_above hi hc hleaves hix hcx)).congr
    intro w
    rw [← and_or_left, ← not_and_or]
    rfl

end Integral

end Interval
end TypedFlow
