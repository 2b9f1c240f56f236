import Mathlib.Topology.Instances.EReal.Lemmas

/-!
# Ends on the extended line

An upper end lets all numbers below its place pass, and those at it if it is attained. Lower ends
are upper ends of the negated numbers. The corners of a box are the products of its ends, zero times
infinity being zero, and each product of numbers of the box passes one of them.
-/
namespace TypedFlow

@[ext] structure LineEnd where
  place : EReal
  attained : Prop

namespace LineEnd
variable {e f l u m v : LineEnd} {x y : ℝ}

def Covers (e : LineEnd) (x : ℝ) : Prop :=
  (x : EReal) < e.place ∨ e.attained ∧ (x : EReal) = e.place

/-- The lower end as an upper end of the negated numbers, and the other way round. -/
noncomputable def neg (e : LineEnd) : LineEnd := ⟨-e.place, e.attained⟩

/-- The end of products. Zero is attained as soon as one factor attains it, but only the left
factor is asked if both are zero. -/
noncomputable def mul (e f : LineEnd) : LineEnd where
  place := e.place * f.place
  attained := (e.place = 0 ∧ e.attained) ∨ (e.place ≠ 0 ∧ f.place = 0 ∧ f.attained) ∨
    (e.place ≠ 0 ∧ f.place ≠ 0 ∧ e.attained ∧ f.attained)

noncomputable def add (e f : LineEnd) : LineEnd where
  place := e.place + f.place
  attained := e.attained ∧ f.attained

theorem add_neg (h : e.place ≠ ⊥ ∨ f.place ≠ ⊤) (h' : e.place ≠ ⊤ ∨ f.place ≠ ⊥) :
    (e.add f).neg = e.neg.add f.neg := by
  ext
  · exact (EReal.neg_add h h').trans (sub_eq_add_neg _ _)
  · rfl

theorem mul_neg_left : (e.neg).mul f = (e.mul f).neg := by
  ext
  · exact EReal.neg_mul _ _
  · simp [neg, mul]

theorem mul_neg_right : e.mul f.neg = (e.mul f).neg := by
  ext
  · exact (EReal.mul_comm _ _).trans ((EReal.neg_mul _ _).trans (congrArg _ (EReal.mul_comm _ _)))
  · simp [neg, mul]

theorem neg_twice : e.neg.neg = e := by
  ext
  · simp [neg]
  · rfl

theorem mul_neg_neg : e.neg.mul f.neg = e.mul f := by
  rw [mul_neg_left, mul_neg_right, neg_twice]

theorem Covers.mono (h : e.Covers y) (hxy : x ≤ y) : e.Covers x := by
  rcases hxy.eq_or_lt with rfl | hlt
  · exact h
  · have hxy : (x : EReal) < y := EReal.coe_lt_coe_iff.2 hlt
    rcases h with hy | ⟨-, hy⟩
    · exact .inl (hxy.trans hy)
    · exact .inl (hxy.trans_le hy.le)

theorem Covers.le (h : e.Covers x) : (x : EReal) ≤ e.place := by
  rcases h with hx | ⟨-, hx⟩
  · exact hx.le
  · exact hx.le

theorem Covers.add (he : e.Covers x) (hf : f.Covers y) : (e.add f).Covers (x + y) := by
  have hx := he.le
  have hy := hf.le
  simp only [Covers, LineEnd.add]
  rw [EReal.coe_add]
  rcases he with hlt | ⟨hattained, heq⟩
  · refine .inl (EReal.add_lt_add_of_lt_of_le' hlt hy ((EReal.bot_lt_coe y).trans_le hy).ne' ?_)
    exact fun _ htop => absurd htop (EReal.coe_ne_top y)
  · rw [← heq]
    rcases hf with hlt | ⟨hattained', heq'⟩
    · left
      rw [add_comm, add_comm _ f.place]
      refine EReal.add_lt_add_of_lt_of_le' hlt le_rfl (EReal.coe_ne_bot x) ?_
      exact fun htop => absurd htop (EReal.coe_ne_top x)
    · exact .inr ⟨⟨hattained, hattained'⟩, by rw [heq']⟩

/-- The place of an end that passes a number that is not negative. -/
theorem Covers.place_cases (h : e.Covers x) (hx : 0 ≤ x) :
    (e.place = 0 ∧ e.attained ∧ x = 0) ∨ e.place = ⊤ ∨
      ∃ a : ℝ, e.place = a ∧ 0 < a ∧ (x < a ∨ x = a ∧ e.attained) := by
  have hle : (x : EReal) ≤ e.place := h.le
  cases hp : e.place using EReal.rec with
  | bot =>
    rw [hp] at hle
    exact absurd (EReal.bot_lt_coe x) hle.not_gt
  | top => exact .inr (.inl rfl)
  | coe a =>
    simp only [Covers] at h
    rw [hp, EReal.coe_lt_coe_iff, EReal.coe_eq_coe_iff] at h
    rcases eq_or_ne a 0 with rfl | hne
    · rcases h with hlt | ⟨hattained, rfl⟩
      · exact absurd hlt hx.not_gt
      · exact .inl ⟨rfl, hattained, rfl⟩
    · rw [hp, EReal.coe_le_coe_iff] at hle
      exact .inr (.inr ⟨a, rfl, lt_of_le_of_ne (hx.trans hle) hne.symm, h.imp_right And.symm⟩)

theorem Covers.mul (he : e.Covers x) (hf : f.Covers y) (hx : 0 ≤ x) (hy : 0 ≤ y) :
    (e.mul f).Covers (x * y) := by
  simp only [Covers, LineEnd.mul]
  rcases he.place_cases hx with ⟨hp, hattained, rfl⟩ | hp | ⟨a, hp, ha, hxa⟩
  · -- the left factor is zero, and attained
    exact .inr ⟨.inl ⟨hp, hattained⟩, by simp [hp]⟩
  · rcases hf.place_cases hy with ⟨hq, hattained, rfl⟩ | hq | ⟨b, hq, hb, hyb⟩
    · exact .inr ⟨.inr (.inl ⟨by simp [hp], hq, hattained⟩), by simp [hq]⟩
    · left
      rw [hp, hq, EReal.top_mul_top]
      exact EReal.coe_lt_top _
    · left
      rw [hp, hq, EReal.top_mul_coe_of_pos hb]
      exact EReal.coe_lt_top _
  · rcases hf.place_cases hy with ⟨hq, hattained, rfl⟩ | hq | ⟨b, hq, hb, hyb⟩
    · have hne : e.place ≠ 0 := by
        rw [hp]
        exact_mod_cast ha.ne'
      exact .inr ⟨.inr (.inl ⟨hne, hq, hattained⟩), by simp [hq]⟩
    · left
      rw [hp, hq, EReal.coe_mul_top_of_pos ha]
      exact EReal.coe_lt_top _
    · rw [hp, hq, ← EReal.coe_mul, EReal.coe_lt_coe_iff, EReal.coe_eq_coe_iff]
      rcases hxa with hxa | ⟨rfl, hxa⟩
      · have hyb : y ≤ b := hyb.elim le_of_lt fun hyb => hyb.1.le
        exact .inl ((mul_le_mul_of_nonneg_left hyb hx).trans_lt (mul_lt_mul_of_pos_right hxa hb))
      · rcases hyb with hyb | ⟨rfl, hyb⟩
        · exact .inl (mul_lt_mul_of_pos_left hyb ha)
        · refine .inr ⟨.inr (.inr ⟨?_, ?_, hxa, hyb⟩), rfl⟩
          · exact_mod_cast ha.ne'
          · exact_mod_cast hb.ne'

/-- Between a positive and a negative number, ends that do not pass zero. -/
theorem covers_mul_inward (hx : 0 < x) (hy : y < 0) (hl : e.neg.Covers (-x)) (hu : f.Covers y)
    (he : ¬ e.neg.Covers 0) (hf : ¬ f.Covers 0) : (e.mul f).Covers (x * y) := by
  have hex := hl.le
  have hyf := hu.le
  simp only [Covers, neg] at hl hu he hf hex
  rw [EReal.coe_neg] at hl hex
  rw [EReal.neg_lt_neg_iff] at hl
  rw [EReal.neg_le_neg_iff] at hex
  have hep : 0 ≤ e.place := by simpa using (not_or.1 he).1
  have hfq : f.place ≤ 0 := by simpa using (not_or.1 hf).1
  simp only [Covers, LineEnd.mul]
  cases hp : e.place using EReal.rec with
  | bot => exact absurd (hp ▸ hep) EReal.bot_lt_zero.not_ge
  | top => exact absurd (hp ▸ hex) (EReal.coe_lt_top x).not_ge
  | coe a =>
    cases hq : f.place using EReal.rec with
    | bot => exact absurd (hq ▸ hyf) (EReal.bot_lt_coe y).not_ge
    | top => exact absurd (hq ▸ hfq) EReal.zero_lt_top.not_ge
    | coe b =>
      rw [hp] at hl hep hex
      rw [hq] at hu hfq hyf
      norm_cast at hep hfq hex hyf hl hu ⊢
      -- the product is at least this large, and larger unless both ends are met
      have hle : x * y ≤ x * b := mul_le_mul_of_nonneg_left hyf hx.le
      have hle' : x * b ≤ a * b := mul_le_mul_of_nonpos_right hex hfq
      rcases hex.lt_or_eq with hlt | rfl
      · rcases hfq.lt_or_eq with hb | rfl
        · exact .inl (hle.trans_lt (mul_lt_mul_of_neg_right hlt hb))
        · exact .inl (by simpa using mul_neg_of_pos_of_neg hx hy)
      · rcases hyf.lt_or_eq with hlt | rfl
        · exact .inl (mul_lt_mul_of_pos_left hlt hx)
        · have hl := (hl.resolve_left (lt_irrefl _)).1
          have hu := (hu.resolve_left (lt_irrefl _)).1
          exact .inr ⟨.inr (.inr ⟨hx.ne', hy.ne, hl, hu⟩), rfl⟩

/-- Some corner of a box passes every product of its numbers. -/
theorem exists_corner_of_nonneg (hx : 0 ≤ x) (hl : l.neg.Covers (-x)) (hu : u.Covers x)
    (hl' : m.neg.Covers (-y)) (hu' : v.Covers y) :
    (l.mul m).Covers (x * y) ∨ (l.mul v).Covers (x * y) ∨ (u.mul m).Covers (x * y) ∨
      (u.mul v).Covers (x * y) := by
  rcases le_total 0 y with hy | hy
  · exact .inr (.inr (.inr (hu.mul hu' hx hy)))
  · have hle : x * y ≤ 0 := mul_nonpos_of_nonneg_of_nonpos hx hy
    by_cases hzero : l.neg.Covers 0
    · -- zero may take the place of `x`
      have hcorner := hzero.mul hl' le_rfl (neg_nonneg.2 hy)
      rw [mul_neg_neg, zero_mul] at hcorner
      exact .inl (hcorner.mono hle)
    · by_cases hzero' : v.Covers 0
      · have hcorner := hu.mul hzero' hx le_rfl
        rw [mul_zero] at hcorner
        exact .inr (.inr (.inr (hcorner.mono hle)))
      · have hpos : 0 < x := lt_of_le_of_ne hx fun h => hzero (by simpa [← h] using hl)
        have hneg : y < 0 := lt_of_le_of_ne hy fun h => hzero' (by simpa [h] using hu')
        exact .inr (.inl (covers_mul_inward hpos hneg hl hu' hzero hzero'))

theorem exists_corner (hl : l.neg.Covers (-x)) (hu : u.Covers x) (hl' : m.neg.Covers (-y))
    (hu' : v.Covers y) : (l.mul m).Covers (x * y) ∨ (l.mul v).Covers (x * y) ∨
      (u.mul m).Covers (x * y) ∨ (u.mul v).Covers (x * y) := by
  rcases le_total 0 x with hx | hx
  · exact exists_corner_of_nonneg hx hl hu hl' hu'
  · have hcorner := @exists_corner_of_nonneg u.neg l.neg v.neg m.neg (-x) (-y) (neg_nonneg.2 hx)
      (by rwa [neg_twice, neg_neg]) hl (by rwa [neg_twice, neg_neg]) hl'
    simp only [mul_neg_neg, neg_mul_neg] at hcorner
    tauto

end LineEnd
end TypedFlow
