import Mathlib.Topology.Order.IntermediateValue
import Mathlib.Topology.Connected.Clopen
import TypedFlow.Proofs.Interval.LineEnd
import TypedFlow.Proofs.Interval.Integers
import TypedFlow.Interval.Arithmetic

/-!
# Images of intervals

The result of an operation on intervals that are not empty has exactly the numbers that the
operation makes of theirs, where sums and products of ends are exact. No such number passes the
ends. An end of the result is approached by such numbers, as the operations are continuous, and an
included one is met; what lies between two of them is one, as intervals are connected.
-/
namespace TypedFlow

open Number (ExactSum ExactProduct)

namespace Bound
variable {a b : Bound} {x : ℝ}

noncomputable def lineEnd (b : Bound) : LineEnd := ⟨b.value.place, b.inclusive = true⟩

theorem above_iff_covers (hb : b.value.isNan = false) : b.Above x ↔ b.lineEnd.Covers x := by
  simp only [Above, LineEnd.Covers, lineEnd]
  simp [hb]

theorem below_iff_covers (hb : b.value.isNan = false) : b.Below x ↔ b.lineEnd.neg.Covers (-x) := by
  simp only [Below, LineEnd.Covers, lineEnd, LineEnd.neg]
  rw [EReal.coe_neg, EReal.neg_lt_neg_iff, neg_inj, eq_comm (a := (x : EReal))]
  simp [hb]

theorem inclusive_of {v : Number} {inclusive : Bool} (h : inclusive = true → v.isFinite = true) :
    (of v inclusive).inclusive = inclusive := by
  simp only [of]
  cases inclusive with
  | false => rfl
  | true => exact h rfl

end Bound

namespace Interval
variable {i j k : Interval} {a b c : Bound} {f : ℝ → ℝ → ℝ} {x s : ℝ}

section Ends

/-- An end is approached by members, and is one if it is included. -/
structure EndOf (i : Interval) (b : Bound) : Prop where
  clean : b.value.isNan = false
  near : b.value.place ∈ closure ((↑) '' {x : ℝ | i.Mem x} : Set EReal)
  mem : b.inclusive = true → ∀ x : ℝ, b.value.place = x → i.Mem x

variable (h : i.isEmpty = false)
include h

theorem endOf_lower : i.EndOf i.lower where
  clean := (clean_of_isEmpty h).lower
  near := by
    obtain ⟨y, hy⟩ := exists_mem h
    have hglb : IsGLB ((↑) '' {x : ℝ | i.Mem x} : Set EReal) i.lower.value.place := by
      constructor
      · rintro _ ⟨x, hx, rfl⟩
        exact hx.1.place_le
      · intro c hc
        exact le_lower h fun x hx => hc ⟨x, hx, rfl⟩
    exact hglb.mem_closure ⟨y, y, hy, rfl⟩
  mem hincl x hx := by
    obtain ⟨y, hy⟩ := exists_mem h
    have hle := hy.1.place_le
    rw [hx, EReal.coe_le_coe_iff] at hle
    exact ⟨⟨hy.1.1, .inr ⟨hincl, hx⟩⟩, hy.2.mono hle⟩

theorem endOf_upper : i.EndOf i.upper where
  clean := (clean_of_isEmpty h).upper
  near := by
    obtain ⟨y, hy⟩ := exists_mem h
    have hlub : IsLUB ((↑) '' {x : ℝ | i.Mem x} : Set EReal) i.upper.value.place := by
      constructor
      · rintro _ ⟨x, hx, rfl⟩
        exact hx.2.le_place
      · intro c hc
        exact upper_le h fun x hx => hc ⟨x, hx, rfl⟩
    exact hlub.mem_closure ⟨y, y, hy, rfl⟩
  mem hincl x hx := by
    obtain ⟨y, hy⟩ := exists_mem h
    have hle := hy.2.le_place
    rw [hx, EReal.coe_le_coe_iff] at hle
    exact ⟨hy.1.mono hle, hy.2.1, .inr ⟨hincl, hx.symm⟩⟩

theorem lower_ne_top : i.lower.value.place ≠ ⊤ := by
  obtain ⟨x, hx⟩ := exists_mem h
  exact (hx.1.place_le.trans_lt (EReal.coe_lt_top x)).ne

theorem upper_ne_bot : i.upper.value.place ≠ ⊥ := by
  obtain ⟨x, hx⟩ := exists_mem h
  exact ((EReal.bot_lt_coe x).trans_le hx.2.le_place).ne'

end Ends

section Values

/-- No value that an end passes is beyond all results. -/
structure Touches (f : ℝ → ℝ → ℝ) (i j : Interval) (c : Bound) : Prop where
  below : ∀ s, c.Below s → ∃ x y, i.Mem x ∧ j.Mem y ∧ f x y ≤ s
  above : ∀ s, c.Above s → ∃ x y, i.Mem x ∧ j.Mem y ∧ s ≤ f x y

/-- An interval has exactly the results as members. -/
def Image (f : ℝ → ℝ → ℝ) (i j k : Interval) : Prop :=
  ∀ s, k.Mem s ↔ ∃ x y, i.Mem x ∧ j.Mem y ∧ f x y = s

theorem touches_of_continuousAt {F : EReal → EReal → EReal} {p q : EReal}
    (hF : ∀ x y : ℝ, F x y = f x y) (hp : p ∈ closure ((↑) '' {x : ℝ | i.Mem x} : Set EReal))
    (hq : q ∈ closure ((↑) '' {x : ℝ | j.Mem x} : Set EReal))
    (hcont : ContinuousAt (fun r : EReal × EReal => F r.1 r.2) (p, q)) (hc : c.value.place = F p q)
    (hmem : c.inclusive = true → ∀ s : ℝ, F p q = s → ∃ x y, i.Mem x ∧ j.Mem y ∧ f x y = s) :
    Touches f i j c := by
  have hnear : (p, q) ∈ closure (((↑) '' {x : ℝ | i.Mem x} : Set EReal) ×ˢ
      ((↑) '' {x : ℝ | j.Mem x} : Set EReal)) := by
    rw [closure_prod_eq]
    exact ⟨hp, hq⟩
  have hvalue : ∀ P : EReal → Prop, (∀ᶠ v in nhds (F p q), P v) →
      ∃ x y, i.Mem x ∧ j.Mem y ∧ P (f x y) := by
    intro P hP
    obtain ⟨⟨_, _⟩, ⟨⟨x, hx, rfl⟩, y, hy, rfl⟩, hxy⟩ :=
      ((mem_closure_iff_frequently.1 hnear).and_eventually (hcont.eventually hP)).exists
    exact ⟨x, y, hx, hy, hF x y ▸ hxy⟩
  constructor
  · intro s hs
    rcases hs.2 with hlt | ⟨hincl, heq⟩
    · obtain ⟨x, y, hx, hy, hxy⟩ := hvalue (· < s) (eventually_lt_nhds (hc ▸ hlt))
      exact ⟨x, y, hx, hy, (EReal.coe_lt_coe_iff.1 hxy).le⟩
    · obtain ⟨x, y, hx, hy, hxy⟩ := hmem hincl s (hc ▸ heq)
      exact ⟨x, y, hx, hy, hxy.le⟩
  · intro s hs
    rcases hs.2 with hlt | ⟨hincl, heq⟩
    · obtain ⟨x, y, hx, hy, hxy⟩ := hvalue (s < ·) (eventually_gt_nhds (hc ▸ hlt))
      exact ⟨x, y, hx, hy, (EReal.coe_lt_coe_iff.1 hxy).le⟩
    · obtain ⟨x, y, hx, hy, hxy⟩ := hmem hincl s (hc ▸ heq.symm)
      exact ⟨x, y, hx, hy, hxy.ge⟩

theorem image_of_touches (hf : Continuous fun p : ℝ × ℝ => f p.1 p.2)
    (hmem : ∀ x y, i.Mem x → j.Mem y → k.Mem (f x y)) (hl : Touches f i j k.lower)
    (hu : Touches f i j k.upper) : Image f i j k := by
  intro s
  constructor
  · intro hs
    obtain ⟨x, y, hx, hy, hxy⟩ := hl.below s hs.1
    obtain ⟨x', y', hx', hy', hxy'⟩ := hu.above s hs.2
    have hconnected : ∀ i : Interval, IsPreconnected {x : ℝ | i.Mem x} := by
      intro i
      apply Set.OrdConnected.isPreconnected
      refine ⟨fun x hx y hy z hz => ?_⟩
      exact ⟨hx.1.mono hz.1, hy.2.mono hz.2⟩
    have hvalues := ((hconnected i).prod (hconnected j)).intermediate_value
      (Set.mk_mem_prod hx hy) (Set.mk_mem_prod hx' hy') hf.continuousOn
    obtain ⟨⟨x, y⟩, ⟨hx, hy⟩, hxy⟩ := hvalues ⟨hxy, hxy'⟩
    exact ⟨x, y, hx, hy, hxy⟩
  · rintro ⟨x, y, hx, hy, rfl⟩
    exact hmem x y hx hy

end Values

section Sums

theorem addBound_spec (ha : a.value.isNan = false) (hb : b.value.isNan = false)
    (h : ExactSum a.value b.value) (hl : a.value.place ≠ ⊤ ∨ b.value.place ≠ ⊥)
    (hu : a.value.place ≠ ⊥ ∨ b.value.place ≠ ⊤) :
    (addBound a b).value.isNan = false ∧ (addBound a b).lineEnd = a.lineEnd.add b.lineEnd := by
  obtain ⟨hnan, hplace⟩ := Number.place_add ha hb h hl hu
  refine ⟨hnan, LineEnd.ext hplace ?_⟩
  have hincl : (addBound a b).inclusive = (a.inclusive && b.inclusive) := by
    apply Bound.inclusive_of
    intro hincl
    obtain ⟨ha', hb'⟩ := Bool.and_eq_true_iff.1 hincl
    obtain ⟨x, hx⟩ := Bound.place_of_inclusive ha ha'
    obtain ⟨y, hy⟩ := Bound.place_of_inclusive hb hb'
    rw [hx, hy, ← EReal.coe_add] at hplace
    exact Number.isFinite_of_place hnan hplace
  simp only [Bound.lineEnd, LineEnd.add]
  rw [hincl, Bool.and_eq_true]

theorem touches_addBound (ha : i.EndOf a) (hb : j.EndOf b) (h : ExactSum a.value b.value)
    (hl : a.value.place ≠ ⊤ ∨ b.value.place ≠ ⊥) (hu : a.value.place ≠ ⊥ ∨ b.value.place ≠ ⊤) :
    Touches (· + ·) i j (addBound a b) := by
  have hend := (addBound_spec ha.clean hb.clean h hl hu).2
  refine touches_of_continuousAt EReal.coe_add ha.near hb.near
    (EReal.continuousAt_add (p := (a.value.place, b.value.place)) hl hu)
    (congrArg LineEnd.place hend) fun hincl s hs => ?_
  have hattained : a.inclusive = true ∧ b.inclusive = true := by
    have hattained := congrArg LineEnd.attained hend
    simp only [Bound.lineEnd, LineEnd.add] at hattained
    exact hattained ▸ hincl
  obtain ⟨x, hx⟩ := Bound.place_of_inclusive ha.clean hattained.1
  obtain ⟨y, hy⟩ := Bound.place_of_inclusive hb.clean hattained.2
  rw [hx, hy, ← EReal.coe_add, EReal.coe_eq_coe_iff] at hs
  exact ⟨x, y, ha.mem hattained.1 x hx, hb.mem hattained.2 y hy, hs⟩

theorem image_add (hi : i.isEmpty = false) (hj : j.isEmpty = false)
    (hl : ExactSum i.lower.value j.lower.value) (hu : ExactSum i.upper.value j.upper.value) :
    Image (· + ·) i j (i.add j) := by
  have hci := clean_of_isEmpty hi
  have hcj := clean_of_isEmpty hj
  have htop := lower_ne_top hi
  have htop' := lower_ne_top hj
  have hbot := upper_ne_bot hi
  have hbot' := upper_ne_bot hj
  obtain ⟨hnan, hlower⟩ := addBound_spec hci.lower hcj.lower hl (.inl htop) (.inr htop')
  obtain ⟨hnan', hupper⟩ := addBound_spec hci.upper hcj.upper hu (.inr hbot') (.inl hbot)
  refine image_of_touches continuous_add (fun x y hx hy => ⟨?_, ?_⟩)
    (touches_addBound (endOf_lower hi) (endOf_lower hj) hl (.inl htop) (.inr htop'))
    (touches_addBound (endOf_upper hi) (endOf_upper hj) hu (.inr hbot') (.inl hbot))
  · have hx := (Bound.below_iff_covers hci.lower).1 hx.1
    have hy := (Bound.below_iff_covers hcj.lower).1 hy.1
    have hsum := hx.add hy
    rw [← LineEnd.add_neg (.inr htop') (.inl htop), ← neg_add] at hsum
    exact (Bound.below_iff_covers hnan).2 (hlower ▸ hsum)
  · have hx := (Bound.above_iff_covers hci.upper).1 hx.2
    have hy := (Bound.above_iff_covers hcj.upper).1 hy.2
    exact (Bound.above_iff_covers hnan').2 (hupper ▸ hx.add hy)

end Sums

section Products

theorem beq_zero_iff {v : Number} (hv : v.isNan = false) : (v == 0) = true ↔ v.place = 0 := by
  rw [Number.beq_iff hv (Number.isNan_of_isFinite Number.holds_zero.isFinite), Number.place_zero]

theorem mulBound_spec (ha : a.value.isNan = false) (hb : b.value.isNan = false)
    (h : ExactProduct a.value b.value) :
    (mulBound a b).value.isNan = false ∧ (mulBound a b).lineEnd = a.lineEnd.mul b.lineEnd := by
  have hnan := Number.isNan_of_isFinite Number.holds_zero.isFinite
  have hof : ∀ inclusive, (Bound.of 0 inclusive).inclusive = inclusive :=
    fun inclusive => Bound.inclusive_of fun _ => Number.holds_zero.isFinite
  simp only [mulBound]
  by_cases hpa : a.value.place = 0
  · rw [if_pos ((beq_zero_iff ha).2 hpa)]
    refine ⟨hnan, LineEnd.ext ?_ ?_⟩
    · simp only [Bound.lineEnd, LineEnd.mul, Bound.of]
      rw [Number.place_zero, hpa, zero_mul]
    · simp [Bound.lineEnd, LineEnd.mul, hof, hpa]
  · rw [if_neg fun heq => hpa ((beq_zero_iff ha).1 heq)]
    by_cases hpb : b.value.place = 0
    · rw [if_pos ((beq_zero_iff hb).2 hpb)]
      refine ⟨hnan, LineEnd.ext ?_ ?_⟩
      · simp only [Bound.lineEnd, LineEnd.mul, Bound.of]
        rw [Number.place_zero, hpb, mul_zero]
      · simp [Bound.lineEnd, LineEnd.mul, hof, hpa, hpb]
    · rw [if_neg fun heq => hpb ((beq_zero_iff hb).1 heq)]
      obtain ⟨hnan, hplace⟩ := Number.place_mul ha hb h hpa hpb
      refine ⟨hnan, LineEnd.ext hplace ?_⟩
      have hincl : (Bound.of (a.value * b.value) (a.inclusive && b.inclusive)).inclusive =
          (a.inclusive && b.inclusive) := by
        apply Bound.inclusive_of
        intro hincl
        obtain ⟨ha', hb'⟩ := Bool.and_eq_true_iff.1 hincl
        obtain ⟨x, hx⟩ := Bound.place_of_inclusive ha ha'
        obtain ⟨y, hy⟩ := Bound.place_of_inclusive hb hb'
        rw [hx, hy, ← EReal.coe_mul] at hplace
        exact Number.isFinite_of_place hnan hplace
      simp [Bound.lineEnd, LineEnd.mul, hincl, hpa, hpb]

theorem touches_mulBound (hi : i.isEmpty = false) (hj : j.isEmpty = false) (ha : i.EndOf a)
    (hb : j.EndOf b) (h : ExactProduct a.value b.value) : Touches (· * ·) i j (mulBound a b) := by
  obtain ⟨hnan, hend⟩ := mulBound_spec ha.clean hb.clean h
  have hplace : (mulBound a b).value.place = a.value.place * b.value.place :=
    congrArg LineEnd.place hend
  have hattained := congrArg LineEnd.attained hend
  simp only [Bound.lineEnd, LineEnd.mul] at hattained
  obtain ⟨x₀, hx₀⟩ := exists_mem hi
  obtain ⟨y₀, hy₀⟩ := exists_mem hj
  have hnear₀ : ∀ {i : Interval} {x : ℝ}, i.Mem x →
      (x : EReal) ∈ closure ((↑) '' {x : ℝ | i.Mem x} : Set EReal) :=
    fun hx => subset_closure ⟨_, hx, rfl⟩
  by_cases hpa : a.value.place = 0
  · -- any number will do as the other factor
    refine touches_of_continuousAt EReal.coe_mul ha.near (hnear₀ hy₀)
      (EReal.continuousAt_mul (p := (a.value.place, y₀)) (.inr (by simp)) (.inr (by simp))
        (.inl (by simp [hpa])) (.inl (by simp [hpa]))) (by simp [hplace, hpa]) fun hincl s hs => ?_
    rw [hattained] at hincl
    have hincl : a.inclusive = true := by simpa [hpa] using hincl
    rw [hpa, zero_mul, eq_comm, EReal.coe_eq_zero] at hs
    exact ⟨0, y₀, ha.mem hincl 0 (by simp [hpa]), hy₀, by simp [hs]⟩
  · by_cases hpb : b.value.place = 0
    · refine touches_of_continuousAt EReal.coe_mul (hnear₀ hx₀) hb.near
        (EReal.continuousAt_mul (p := (x₀, b.value.place)) (.inr (by simp [hpb]))
          (.inr (by simp [hpb])) (.inl (by simp)) (.inl (by simp))) (by simp [hplace, hpb])
        fun hincl s hs => ?_
      rw [hattained] at hincl
      have hincl : b.inclusive = true := by simpa [hpa, hpb] using hincl
      rw [hpb, mul_zero, eq_comm, EReal.coe_eq_zero] at hs
      exact ⟨x₀, 0, hx₀, hb.mem hincl 0 (by simp [hpb]), by simp [hs]⟩
    · refine touches_of_continuousAt EReal.coe_mul ha.near hb.near
        (EReal.continuousAt_mul (p := (a.value.place, b.value.place)) (.inl hpa) (.inl hpa)
          (.inr hpb) (.inr hpb)) hplace fun hincl s hs => ?_
      rw [hattained] at hincl
      have hincl : a.inclusive = true ∧ b.inclusive = true := by simpa [hpa, hpb] using hincl
      obtain ⟨x, hx⟩ := Bound.place_of_inclusive ha.clean hincl.1
      obtain ⟨y, hy⟩ := Bound.place_of_inclusive hb.clean hincl.2
      rw [hx, hy, ← EReal.coe_mul, EReal.coe_eq_coe_iff] at hs
      exact ⟨x, y, ha.mem hincl.1 x hx, hb.mem hincl.2 y hy, hs⟩

structure ExactCorners (i j : Interval) : Prop where
  lowerLower : ExactProduct i.lower.value j.lower.value
  lowerUpper : ExactProduct i.lower.value j.upper.value
  upperLower : ExactProduct i.upper.value j.lower.value
  upperUpper : ExactProduct i.upper.value j.upper.value

theorem image_mul (hi : i.isEmpty = false) (hj : j.isEmpty = false) (h : ExactCorners i j) :
    Image (· * ·) i j (i.mul j) := by
  have hli := endOf_lower hi
  have hui := endOf_upper hi
  have hlj := endOf_lower hj
  have huj := endOf_upper hj
  obtain ⟨hll, hll'⟩ := mulBound_spec hli.clean hlj.clean h.lowerLower
  obtain ⟨hlu, hlu'⟩ := mulBound_spec hli.clean huj.clean h.lowerUpper
  obtain ⟨hul, hul'⟩ := mulBound_spec hui.clean hlj.clean h.upperLower
  obtain ⟨huu, huu'⟩ := mulBound_spec hui.clean huj.clean h.upperUpper
  have tll := touches_mulBound hi hj hli hlj h.lowerLower
  have tlu := touches_mulBound hi hj hli huj h.lowerUpper
  have tul := touches_mulBound hi hj hui hlj h.upperLower
  have tuu := touches_mulBound hi hj hui huj h.upperUpper
  refine image_of_touches continuous_mul (fun x y hx hy => ⟨?_, ?_⟩) ?_ ?_
  · -- the corners of the box with the second factor negated
    have hcorner := LineEnd.exists_corner ((Bound.below_iff_covers hli.clean).1 hx.1)
      ((Bound.above_iff_covers hui.clean).1 hx.2) (m := j.upper.lineEnd.neg)
      (v := j.lower.lineEnd.neg) (y := -y)
      (by rw [LineEnd.neg_twice, neg_neg]; exact (Bound.above_iff_covers huj.clean).1 hy.2)
      ((Bound.below_iff_covers hlj.clean).1 hy.1)
    simp only [LineEnd.mul_neg_right, mul_neg, ← hll', ← hlu', ← hul', ← huu'] at hcorner
    rw [← Bound.below_iff_covers hlu, ← Bound.below_iff_covers hll, ← Bound.below_iff_covers huu,
      ← Bound.below_iff_covers hul] at hcorner
    simp only [mul, List.foldl]
    rw [Bound.below_looserLower (Bound.looserLower_of_both (P := (·.value.isNan = false))
      (Bound.looserLower_of_both (P := (·.value.isNan = false)) hll hlu) hul) huu,
      Bound.below_looserLower (Bound.looserLower_of_both (P := (·.value.isNan = false)) hll hlu)
        hul, Bound.below_looserLower hll hlu]
    tauto
  · have hcorner := LineEnd.exists_corner ((Bound.below_iff_covers hli.clean).1 hx.1)
      ((Bound.above_iff_covers hui.clean).1 hx.2) ((Bound.below_iff_covers hlj.clean).1 hy.1)
      ((Bound.above_iff_covers huj.clean).1 hy.2)
    simp only [← hll', ← hlu', ← hul', ← huu'] at hcorner
    rw [← Bound.above_iff_covers hlu, ← Bound.above_iff_covers hll, ← Bound.above_iff_covers huu,
      ← Bound.above_iff_covers hul] at hcorner
    simp only [mul, List.foldl]
    rw [Bound.above_looserUpper (Bound.looserUpper_of_both (P := (·.value.isNan = false))
      (Bound.looserUpper_of_both (P := (·.value.isNan = false)) hll hlu) hul) huu,
      Bound.above_looserUpper (Bound.looserUpper_of_both (P := (·.value.isNan = false)) hll hlu)
        hul, Bound.above_looserUpper hll hlu]
    tauto
  · exact Bound.looserLower_of_both (Bound.looserLower_of_both
      (Bound.looserLower_of_both tll tlu) tul) tuu
  · exact Bound.looserUpper_of_both (Bound.looserUpper_of_both
      (Bound.looserUpper_of_both tll tlu) tul) tuu

end Products

section Selections
variable (hi : i.isEmpty = false) (hj : j.isEmpty = false)
include hi hj

theorem image_minimum : Image min i j (i.minimum j) := by
  have hci := clean_of_isEmpty hi
  have hcj := clean_of_isEmpty hj
  intro s
  simp only [Mem, minimum]
  rw [Bound.below_looserLower hci.lower hcj.lower, Bound.above_tighterUpper hci.upper hcj.upper]
  constructor
  · intro hh
    obtain ⟨hl, hu, hu'⟩ := hh
    rcases hl with hl | hl
    · -- a number of the other interval that is not below
      obtain ⟨y, hy⟩ := exists_mem hj
      exact ⟨s, max s y, ⟨hl, hu⟩, ⟨hy.1.mono (le_max_right s y), max_rec' _ hu' hy.2⟩,
        min_eq_left (le_max_left s y)⟩
    · obtain ⟨x, hx⟩ := exists_mem hi
      exact ⟨max s x, s, ⟨hx.1.mono (le_max_right s x), max_rec' _ hu hx.2⟩, ⟨hl, hu'⟩,
        min_eq_right (le_max_left s x)⟩
  · rintro ⟨x, y, hx, hy, rfl⟩
    refine ⟨?_, hx.2.mono (min_le_left x y), hy.2.mono (min_le_right x y)⟩
    rcases le_total x y with hle | hle
    · rw [min_eq_left hle]
      exact .inl hx.1
    · rw [min_eq_right hle]
      exact .inr hy.1

theorem image_maximum : Image max i j (i.maximum j) := by
  have hci := clean_of_isEmpty hi
  have hcj := clean_of_isEmpty hj
  intro s
  simp only [Mem, maximum]
  rw [Bound.below_tighterLower hci.lower hcj.lower, Bound.above_looserUpper hci.upper hcj.upper]
  constructor
  · intro hh
    obtain ⟨⟨hl, hl'⟩, hu⟩ := hh
    rcases hu with hu | hu
    · obtain ⟨y, hy⟩ := exists_mem hj
      exact ⟨s, min s y, ⟨hl, hu⟩, ⟨min_rec' _ hl' hy.1, hy.2.mono (min_le_right s y)⟩,
        max_eq_left (min_le_left s y)⟩
    · obtain ⟨x, hx⟩ := exists_mem hi
      exact ⟨min s x, s, ⟨min_rec' _ hl hx.1, hx.2.mono (min_le_right s x)⟩, ⟨hl', hu⟩,
        max_eq_right (min_le_left s x)⟩
  · rintro ⟨x, y, hx, hy, rfl⟩
    refine ⟨⟨hx.1.mono (le_max_left x y), hy.1.mono (le_max_right x y)⟩, ?_⟩
    rcases le_total x y with hle | hle
    · rw [max_eq_right hle]
      exact .inr hy.2
    · rw [max_eq_left hle]
      exact .inl hx.2

end Selections

section Signs

theorem neg_spec (hb : b.value.isNan = false) :
    (Bound.of (-b.value) b.inclusive).value.isNan = false ∧
    (Bound.of (-b.value) b.inclusive).lineEnd = b.lineEnd.neg := by
  have hincl : (Bound.of (-b.value) b.inclusive).inclusive = b.inclusive :=
    Bound.inclusive_of fun h => Number.isFinite_neg.trans (b.finite_of_inclusive h)
  refine ⟨Number.isNan_neg.trans hb, LineEnd.ext (Number.place_neg hb) ?_⟩
  simp only [Bound.lineEnd, LineEnd.neg]
  rw [hincl]

theorem below_neg (hb : b.value.isNan = false) :
    (Bound.of (-b.value) b.inclusive).Below x ↔ b.Above (-x) := by
  obtain ⟨hnan, hend⟩ := neg_spec hb
  rw [Bound.below_iff_covers hnan, hend, LineEnd.neg_twice, Bound.above_iff_covers hb]

theorem above_neg (hb : b.value.isNan = false) :
    (Bound.of (-b.value) b.inclusive).Above x ↔ b.Below (-x) := by
  obtain ⟨hnan, hend⟩ := neg_spec hb
  rw [Bound.above_iff_covers hnan, hend, Bound.below_iff_covers hb, neg_neg]

theorem mem_neg (h : i.Clean) : i.neg.Mem s ↔ i.Mem (-s) := by
  simp only [Mem, neg]
  rw [below_neg h.upper, above_neg h.lower, and_comm]

theorem below_zero_iff {x : ℝ} : (Bound.closed 0).Below x ↔ 0 ≤ x := by
  have hzero := Bound.closedAt_closed Number.holds_zero
  exact ⟨fun h => by simpa using hzero.le_of_below h,
    fun h => ((hzero.below_iff 0).2 le_rfl).mono (by simpa using h)⟩

theorem above_zero_iff {x : ℝ} : (Bound.closed 0).Above x ↔ x ≤ 0 := by
  have hzero := Bound.closedAt_closed Number.holds_zero
  exact ⟨fun h => by simpa using hzero.ge_of_above h,
    fun h => ((hzero.above_iff 0).2 le_rfl).mono (by simpa using h)⟩

/-- Zero lies inside. -/
theorem mem_abs_of_mem_zero (hc : i.Clean) (hl : i.lower.Below 0) (hu : i.upper.Above 0) :
    (Interval.mk (.closed 0)
      ((Bound.of (-i.lower.value) i.lower.inclusive).looserUpper i.upper)).Mem s ↔
      ∃ x, i.Mem x ∧ |x| = s := by
  simp only [Mem]
  rw [below_zero_iff, Bound.above_looserUpper (neg_spec hc.lower).1 hc.upper, above_neg hc.lower]
  constructor
  · intro hh
    obtain ⟨hs, hs' | hs'⟩ := hh
    · exact ⟨-s, ⟨hs', hu.mono (by simpa using hs)⟩, by rw [abs_neg, abs_of_nonneg hs]⟩
    · exact ⟨s, ⟨hl.mono hs, hs'⟩, abs_of_nonneg hs⟩
  · rintro ⟨x, hx, rfl⟩
    refine ⟨abs_nonneg x, ?_⟩
    rcases le_total 0 x with hx₀ | hx₀
    · rw [abs_of_nonneg hx₀]
      exact .inr hx.2
    · rw [abs_of_nonpos hx₀, neg_neg]
      exact .inl hx.1

theorem mem_abs (hi : i.isEmpty = false) : i.abs.Mem s ↔ ∃ x, i.Mem x ∧ |x| = s := by
  have hc := clean_of_isEmpty hi
  have hnan := Bound.isNan_of_closedAt (Bound.closedAt_closed Number.holds_zero)
  simp only [abs]
  by_cases hlower : (Bound.closed 0).lowerLE i.lower = true
  · -- no number of the interval is negative
    have hpos : ∀ x, i.Mem x → 0 ≤ x := fun x hx => by
      rw [← below_zero_iff, Bound.below_iff hnan]
      exact ((Bound.lowerLE_iff hnan hc.lower).1 hlower).trans ((Bound.below_iff hc.lower x).1 hx.1)
    rw [if_pos hlower]
    constructor
    · exact fun hs => ⟨s, hs, abs_of_nonneg (hpos s hs)⟩
    · rintro ⟨x, hx, rfl⟩
      rwa [abs_of_nonneg (hpos x hx)]
  · rw [if_neg hlower]
    by_cases hupper : (Bound.closed 0).upperGE i.upper = true
    · have hneg : ∀ x, i.Mem x → x ≤ 0 := fun x hx => by
        rw [← above_zero_iff, Bound.above_iff hnan]
        exact ((Bound.above_iff hc.upper x).1 hx.2).trans_le
          ((Bound.upperGE_iff hnan hc.upper).1 hupper)
      rw [if_pos hupper, mem_neg hc]
      constructor
      · exact fun hs => ⟨-s, hs, by rw [abs_of_nonpos (hneg _ hs), neg_neg]⟩
      · rintro ⟨x, hx, rfl⟩
        rwa [abs_of_nonpos (hneg x hx), neg_neg]
    · rw [if_neg hupper]
      apply mem_abs_of_mem_zero hc
      · rw [Bound.lowerLE_iff hnan hc.lower, not_le] at hlower
        refine (Bound.below_iff hc.lower 0).2 (hlower.le.trans ?_)
        exact (Bound.below_iff hnan 0).1 (below_zero_iff.2 le_rfl)
      · rw [Bound.upperGE_iff hnan hc.upper, not_le] at hupper
        refine (Bound.above_iff hc.upper 0).2 (lt_trans ?_ hupper)
        exact (Bound.above_iff hnan 0).1 (above_zero_iff.2 le_rfl)

end Signs

end Interval
end TypedFlow
