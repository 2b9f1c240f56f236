import TypedFlow.Proofs.NumericSet.Arithmetic

/-!
# Exact arithmetic on numeric sets

What the operations on numeric sets keep of the members of their operands, for operands with which
nothing is rounded. Sets whose finite ends are integers up to 2^25 in magnitude are such operands:
sums and products of ends then stay below 2^52.
-/
namespace TypedFlow

open Number (ExactSum ExactProduct wholeLimit)

/-- The magnitude up to which ends are small. -/
def smallLimit : ℕ := Nat.pow 2 25

theorem smallLimit_mul : smallLimit * smallLimit < wholeLimit := by decide

theorem smallLimit_add : smallLimit + smallLimit < wholeLimit := by decide

theorem wholeLimit_le : wholeLimit ≤ Nat.pow 2 53 := by decide

namespace Bound
variable {a b : Bound}

/-- A finite end holds a small integer. -/
def Small (b : Bound) : Prop :=
  b.isFinite = true → ∃ z : ℤ, b.value.Holds z ∧ z.natAbs ≤ smallLimit

theorem moderate_of_holds {v : Number} {inclusive : Bool}
    (h : v.isFinite = true → ∃ z : ℤ, v.Holds z ∧ z.natAbs < wholeLimit) :
    (of v inclusive).Moderate := by
  intro p hf hp
  obtain ⟨z, hz, hlt⟩ := h hf
  exact moderate_of hz hlt inclusive p hf hp

theorem small_of {v : Number} {z : ℤ} (h : v.Holds z) (hz : z.natAbs ≤ smallLimit)
    (inclusive : Bool) : (of v inclusive).Small := fun _ => ⟨z, h, hz⟩

theorem small_neg (h : b.Small) : (of (-b.value) b.inclusive).Small := by
  intro hf
  obtain ⟨z, hz, hle⟩ := h (Number.isFinite_neg.symm.trans hf)
  exact ⟨-z, hz.neg, by rwa [Int.natAbs_neg]⟩

theorem Small.moderate (h : b.Small) : b.Moderate := by
  intro p hf hp
  have hlimit := smallLimit_add
  obtain ⟨z, hz, hle⟩ := h hf
  exact moderate_of hz (by omega) false p hf hp

section Pairs
variable (ha : a.Small) (hb : b.Small)
include ha hb

theorem Small.holds_add (hfa : a.isFinite = true) (hfb : b.isFinite = true) :
    ExactSum a.value b.value ∧ ∃ z, (a.value + b.value).Holds z ∧ z.natAbs < wholeLimit := by
  have hlimit := smallLimit_add
  have hle := wholeLimit_le
  obtain ⟨z, hz, hza⟩ := ha hfa
  obtain ⟨w, hw, hwb⟩ := hb hfb
  have hlt : (z + w).natAbs < wholeLimit := by omega
  exact ⟨hz.exactSum hw (by omega), z + w, hz.add hw (by omega), hlt⟩

theorem Small.holds_mul (hfa : a.isFinite = true) (hfb : b.isFinite = true) :
    ExactProduct a.value b.value ∧ ∃ z, (a.value * b.value).Holds z ∧ z.natAbs < wholeLimit := by
  have hlimit := smallLimit_mul
  have hle := wholeLimit_le
  obtain ⟨z, hz, hza⟩ := ha hfa
  obtain ⟨w, hw, hwb⟩ := hb hfb
  have hlt : (z * w).natAbs < wholeLimit := by
    rw [Int.natAbs_mul]
    exact (Nat.mul_le_mul hza hwb).trans_lt hlimit
  have hmul := hz.mul hw (by omega)
  refine ⟨fun _ _ => ?_, z * w, hmul, hlt⟩
  rw [hmul.place_eq, hz.place_eq, hw.place_eq, Int.cast_mul, EReal.coe_mul]

theorem Small.exactSum : ExactSum a.value b.value :=
  fun hfa hfb => (ha.holds_add hb hfa hfb).1 hfa hfb

theorem Small.exactProduct : ExactProduct a.value b.value :=
  fun hfa hfb => (ha.holds_mul hb hfa hfb).1 hfa hfb

theorem moderate_addBound : (Interval.addBound a b).Moderate := by
  apply moderate_of_holds
  intro hf
  obtain ⟨hfa, hfb⟩ := Number.isFinite_of_add hf
  exact (ha.holds_add hb hfa hfb).2

theorem moderate_mulBound : (Interval.mulBound a b).Moderate := by
  have hzero : ∀ inclusive, (of 0 inclusive).Moderate := moderate_of Number.holds_zero (by decide)
  simp only [Interval.mulBound]
  split
  · exact hzero _
  · split
    · exact hzero _
    · apply moderate_of_holds
      intro hf
      obtain ⟨hfa, hfb⟩ := Number.isFinite_of_mul hf
      exact (ha.holds_mul hb hfa hfb).2

end Pairs

end Bound

namespace Interval
variable {i j : Interval}

structure Small (i : Interval) : Prop where
  lower : i.lower.Small
  upper : i.upper.Small

theorem Small.neg (hi : i.Small) : i.neg.Small :=
  ⟨Bound.small_neg hi.upper, Bound.small_neg hi.lower⟩

theorem Small.moderate (hi : i.Small) : i.Moderate := ⟨hi.lower.moderate, hi.upper.moderate⟩

theorem moderate_abs (hi : i.Small) : i.abs.Moderate := by
  simp only [abs]
  split
  · exact hi.moderate
  · split
    · exact hi.neg.moderate
    · exact ⟨Bound.moderate_closed Number.holds_zero (by decide),
        Bound.looserUpper_of_both hi.neg.moderate.upper hi.moderate.upper⟩

section Pairs
variable (hi : i.Small) (hj : j.Small)
include hi hj

theorem moderate_add : (i.add j).Moderate :=
  ⟨Bound.moderate_addBound hi.lower hj.lower, Bound.moderate_addBound hi.upper hj.upper⟩

theorem moderate_mul : (i.mul j).Moderate := by
  have hll := Bound.moderate_mulBound hi.lower hj.lower
  have hlu := Bound.moderate_mulBound hi.lower hj.upper
  have hul := Bound.moderate_mulBound hi.upper hj.lower
  have huu := Bound.moderate_mulBound hi.upper hj.upper
  constructor
  · exact Bound.looserLower_of_both (Bound.looserLower_of_both
      (Bound.looserLower_of_both hll hlu) hul) huu
  · exact Bound.looserUpper_of_both (Bound.looserUpper_of_both
      (Bound.looserUpper_of_both hll hlu) hul) huu

theorem exactCorners_of_small : ExactCorners i j where
  lowerLower := hi.lower.exactProduct hj.lower
  lowerUpper := hi.lower.exactProduct hj.upper
  upperLower := hi.upper.exactProduct hj.lower
  upperUpper := hi.upper.exactProduct hj.upper

theorem moderate_minimum : (i.minimum j).Moderate :=
  ⟨Bound.looserLower_of_both hi.lower.moderate hj.lower.moderate,
    Bound.tighterUpper_of_both hi.upper.moderate hj.upper.moderate⟩

theorem moderate_maximum : (i.maximum j).Moderate :=
  ⟨Bound.tighterLower_of_both hi.lower.moderate hj.lower.moderate,
    Bound.looserUpper_of_both hi.upper.moderate hj.upper.moderate⟩

end Pairs

end Interval

namespace NumericSet
variable {a b : NumericSet} {op : Interval → Interval → Interval}

def Small (a : NumericSet) : Prop := ∀ p ∈ a.parts, p.1.Small

theorem settles_of_moderate (h : ∀ p ∈ a.parts, ∀ q ∈ b.parts, (op p.1 q.1).Moderate) :
    Settles op a b := by
  have hmarked : ∀ part ∈ results op a b, part.1.Moderate := by
    intro part hpart
    obtain ⟨p, hp, q, hq, rfl⟩ := mem_results.1 hpart
    exact h p hp q hq
  refine (fit_of_moderate (fun i hi => ?_) fun i hi => ?_).stepsExactly
  · obtain ⟨part, hpart, rfl⟩ := List.mem_map.1 hi
    exact hmarked part (List.mem_filter.1 hpart).1
  · obtain ⟨part, hpart, rfl⟩ := List.mem_map.1 hi
    exact hmarked part (List.mem_filter.1 hpart).1

theorem settlesEach_of_moderate {op : Interval → Interval}
    (h : ∀ p ∈ a.parts, (op p.1).Moderate) : SettlesEach op a := by
  refine (fit_of_moderate (fun i hi => ?_) fun i hi => ?_).stepsExactly
  · obtain ⟨j, hj, rfl⟩ := List.mem_map.1 hi
    exact h (j, false) (mem_parts.2 (.inl ⟨rfl, hj⟩))
  · obtain ⟨j, hj, rfl⟩ := List.mem_map.1 hi
    exact h (j, true) (mem_parts.2 (.inr ⟨rfl, hj⟩))

section Small
variable (ha : a.Small)
include ha

theorem Small.settles_neg : SettlesEach .neg a :=
  settlesEach_of_moderate fun p hp => (ha p hp).neg.moderate

theorem Small.settles_abs : SettlesEach .abs a :=
  settlesEach_of_moderate fun p hp => Interval.moderate_abs (ha p hp)

variable (hb : b.Small)
include hb

theorem Small.addsExactly : a.AddsExactly b where
  sums p hp q hq :=
    ⟨(ha p hp).lower.exactSum (hb q hq).lower, (ha p hp).upper.exactSum (hb q hq).upper⟩
  settles := settles_of_moderate fun p hp q hq => Interval.moderate_add (ha p hp) (hb q hq)

theorem Small.multipliesExactly : a.MultipliesExactly b where
  products p hp q hq := Interval.exactCorners_of_small (ha p hp) (hb q hq)
  settles := settles_of_moderate fun p hp q hq => Interval.moderate_mul (ha p hp) (hb q hq)

theorem Small.settles_minimum : Settles .minimum a b :=
  settles_of_moderate fun p hp q hq => Interval.moderate_minimum (ha p hp) (hb q hq)

theorem Small.settles_maximum : Settles .maximum a b :=
  settles_of_moderate fun p hp q hq => Interval.moderate_maximum (ha p hp) (hb q hq)

end Small

/-- Where nothing is rounded, the results of the operations hold what they should and, as long as no
integer interval holds two integers, nothing else; no real interval comes from integers only; and
operands may change places if no interval starts at the negative zero. -/
theorem arithmetic_reflects_members {a b : NumericSet} (ha : a.Standard) (hb : b.Standard) :
    (a.AddsExactly b → Reflects (· + ·) a b (a.add b)) ∧
    (SettlesEach .neg b → a.AddsExactly b.neg → Reflects (· - ·) a b (a.sub b)) ∧
    (a.MultipliesExactly b → Reflects (· * ·) a b (a.mul b)) ∧
    (Settles .minimum a b → Reflects min a b (a.minimum b)) ∧
    (Settles .maximum a b → Reflects max a b (a.maximum b)) ∧
    (SettlesEach .neg a → ReflectsEach (- ·) a a.neg) ∧
    (SettlesEach .abs a → ReflectsEach (|·|) a a.abs) ∧
    (a.AddsExactly b → b.AddsExactly a → a.StartsPlain → b.StartsPlain →
      (a.add b == b.add a) = true) ∧
    (a.MultipliesExactly b → b.MultipliesExactly a → (a.mul b == b.mul a) = true) ∧
    (Settles .minimum a b → Settles .minimum b a → a.StartsPlain → b.StartsPlain →
      (a.minimum b == b.minimum a) = true) ∧
    (Settles .maximum a b → Settles .maximum b a → a.StartsPlain → b.StartsPlain →
      (a.maximum b == b.maximum a) = true) :=
  ⟨reflects_add ha hb, fun hneg => reflects_sub hb hneg ha, reflects_mul ha hb,
    reflects_minimum ha hb, reflects_maximum ha hb, reflects_neg ha, reflects_abs ha,
    fun hab hba hpa hpb => add_swapped ha hb hpa hpb hab hba, mul_swapped ha hb,
    fun hab hba hpa hpb => minimum_swapped ha hb hpa hpb hab hba,
    fun hab hba hpa hpb => maximum_swapped ha hb hpa hpb hab hba⟩

/-- The number one and the numbers from zero to one. -/
theorem one_and_unit_reflect_members :
    let one := literal 1
    let unit := ofInterval ⟨.closed 0, .closed 1⟩
    (Reflects (· + ·) one unit (one.add unit) ∧ one.Scattered ∧ unit.Scattered) ∧
    Reflects (· - ·) one unit (one.sub unit) ∧
    Reflects (· * ·) one unit (one.mul unit) ∧
    Reflects min one unit (one.minimum unit) ∧
    Reflects max one unit (one.maximum unit) ∧
    ReflectsEach (- ·) one one.neg ∧ ReflectsEach (|·|) one one.abs ∧
    (one.add unit == unit.add one) = true ∧ (one.mul unit == unit.mul one) = true ∧
    (one.minimum unit == unit.minimum one) = true ∧
    (one.maximum unit == unit.maximum one) = true := by
  intro one unit
  have hone : one = ⟨[], [.point 1]⟩ := ofParts_point (by decide +kernel) (by decide +kernel)
  have hunit : unit = ⟨[⟨.closed 0, .closed 1⟩], []⟩ :=
    ofParts_range (by decide +kernel) (by decide +kernel)
  have hneg : unit.neg = ⟨[Interval.neg ⟨.closed 0, .closed 1⟩], []⟩ := by
    rw [hunit]
    exact ofParts_range (by decide +kernel) (by decide +kernel)
  have hzero_small : (Bound.closed 0).Small := Bound.small_of Number.holds_zero (by decide) true
  have hone_small : (Bound.closed 1).Small := Bound.small_of Number.holds_one (by decide) true
  have hrange_small : (Interval.mk (.closed 0) (.closed 1)).Small := ⟨hzero_small, hone_small⟩
  have hso : one.Small := by
    rw [hone]
    exact List.forall_mem_singleton.2 ⟨hone_small, hone_small⟩
  have hsu : unit.Small := by
    rw [hunit]
    exact List.forall_mem_singleton.2 hrange_small
  have hsn : unit.neg.Small := by
    rw [hneg]
    exact List.forall_mem_singleton.2 hrange_small.neg
  have hpo : one.StartsPlain := by
    rw [hone]
    exact List.forall_mem_singleton.2 (by decide +kernel : (1 : Number) ≠ -.zero)
  have hpu : unit.StartsPlain := by
    rw [hunit]
    exact List.forall_mem_singleton.2 Number.zero_ne_neg_zero
  have hone_scattered : one.Scattered := by
    rw [hone]
    refine List.forall_mem_singleton.2 fun z w hz hw => ?_
    have hends := Bound.closedAt_closed Number.holds_one
    have hunique : ∀ z : ℤ, (Interval.point 1).Mem z → z = 1 := fun z hz =>
      le_antisymm ((hends.above_iff z).1 hz.2) ((hends.below_iff z).1 hz.1)
    exact (hunique z hz).trans (hunique w hw).symm
  have hunit_scattered : unit.Scattered := by
    rw [hunit]
    exact List.forall_mem_nil _
  obtain ⟨hadd, hsub, hmul, hmin, hmax, hopposite, habs, hadd', hmul', hmin', hmax'⟩ :=
    arithmetic_reflects_members (a := one) (b := unit) ⟨_, _, rfl⟩ ⟨_, _, rfl⟩
  exact ⟨⟨hadd (hso.addsExactly hsu), hone_scattered, hunit_scattered⟩,
    hsub hsu.settles_neg (hso.addsExactly hsn), hmul (hso.multipliesExactly hsu),
    hmin (hso.settles_minimum hsu), hmax (hso.settles_maximum hsu), hopposite hso.settles_neg,
    habs hso.settles_abs, hadd' (hso.addsExactly hsu) (hsu.addsExactly hso) hpo hpu,
    hmul' (hso.multipliesExactly hsu) (hsu.multipliesExactly hso),
    hmin' (hso.settles_minimum hsu) (hsu.settles_minimum hso) hpo hpu,
    hmax' (hso.settles_maximum hsu) (hsu.settles_maximum hso) hpo hpu⟩

end NumericSet
end TypedFlow
