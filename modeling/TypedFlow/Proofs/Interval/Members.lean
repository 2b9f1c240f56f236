import Mathlib.Data.Prod.Lex
import TypedFlow.Interval.Basic
import TypedFlow.Proofs.Number.Place

/-!
# Members of intervals

The members of an interval are real numbers. An end cuts the line just before or just after its
place, and cuts are totally ordered, so that emptiness, intersection, gaps and hulls of intervals
become comparisons of cuts.
-/
namespace TypedFlow

namespace Bound

/-- As a lower end, lets a real number pass. -/
def Below (b : Bound) (x : ℝ) : Prop :=
  b.value.isNan = false ∧ (b.value.place < x ∨ b.inclusive = true ∧ b.value.place = x)

/-- As an upper end, lets a real number pass. -/
def Above (b : Bound) (x : ℝ) : Prop :=
  b.value.isNan = false ∧ (x < b.value.place ∨ b.inclusive = true ∧ x = b.value.place)

end Bound

def Interval.Mem (i : Interval) (x : ℝ) : Prop := i.lower.Below x ∧ i.upper.Above x

/-- A place in the extended line together with whether it lies before the cut. -/
abbrev Cut := EReal ×ₗ Bool

/-- The cut just before a real number. -/
def Cut.before (x : ℝ) : Cut := toLex ((x : EReal), false)

/-- The cut just after a real number. -/
def Cut.after (x : ℝ) : Cut := toLex ((x : EReal), true)

theorem Cut.before_lt_iff {x : ℝ} {c : Cut} : before x < c ↔ after x ≤ c := by
  obtain ⟨p, u⟩ := c
  change toLex ((x : EReal), false) < toLex (p, u) ↔ toLex ((x : EReal), true) ≤ toLex (p, u)
  rw [Prod.Lex.toLex_lt_toLex, Prod.Lex.toLex_le_toLex]
  cases u <;> simp

namespace Bound

noncomputable def lowerCut (b : Bound) : Cut := toLex (b.value.place, !b.inclusive)

noncomputable def upperCut (b : Bound) : Cut := toLex (b.value.place, b.inclusive)

theorem below_iff {b : Bound} (hb : b.value.isNan = false) (x : ℝ) :
    b.Below x ↔ b.lowerCut ≤ Cut.before x := by
  simp only [Below, lowerCut, Cut.before]
  rw [Prod.Lex.toLex_le_toLex]
  cases b.inclusive <;> simp [hb]

theorem above_iff {b : Bound} (hb : b.value.isNan = false) (x : ℝ) :
    b.Above x ↔ Cut.before x < b.upperCut := by
  simp only [Above, upperCut, Cut.before]
  rw [Prod.Lex.toLex_lt_toLex]
  cases b.inclusive <;> simp [hb]

section Choice
variable {a b : Bound} {P : Bound → Prop} (ha : P a) (hb : P b)
include ha hb

-- Each choice is one of the two ends, so that what holds of both holds of it.

theorem tighterLower_of_both : P (a.tighterLower b) := by
  simp only [tighterLower]
  split
  · exact hb
  · exact ha

theorem tighterUpper_of_both : P (a.tighterUpper b) := by
  simp only [tighterUpper]
  split
  · exact hb
  · exact ha

theorem looserLower_of_both : P (a.looserLower b) := by
  simp only [looserLower]
  split
  · exact ha
  · exact hb

theorem looserUpper_of_both : P (a.looserUpper b) := by
  simp only [looserUpper]
  split
  · exact ha
  · exact hb

end Choice

section Compare
variable {a b : Bound} (ha : a.value.isNan = false) (hb : b.value.isNan = false)
include ha hb

theorem lowerLE_iff : a.lowerLE b = true ↔ a.lowerCut ≤ b.lowerCut := by
  simp only [lowerLE, lowerCut]
  rw [Bool.or_eq_true, Bool.and_eq_true, Number.lt_iff ha hb, Number.beq_iff ha hb,
    Prod.Lex.toLex_le_toLex]
  cases a.inclusive <;> cases b.inclusive <;> simp

theorem upperGE_iff : a.upperGE b = true ↔ b.upperCut ≤ a.upperCut := by
  simp only [upperGE, upperCut]
  rw [Bool.or_eq_true, Bool.and_eq_true, Number.lt_iff hb ha, Number.beq_iff ha hb,
    Prod.Lex.toLex_le_toLex, eq_comm]
  cases a.inclusive <;> cases b.inclusive <;> simp

theorem lowerCut_tighter : (a.tighterLower b).lowerCut = max a.lowerCut b.lowerCut := by
  simp only [tighterLower]
  by_cases h : a.lowerLE b = true
  · rw [if_pos h, max_eq_right ((lowerLE_iff ha hb).1 h)]
  · have hle := not_le.1 fun hle => h ((lowerLE_iff ha hb).2 hle)
    rw [if_neg h, max_eq_left hle.le]

theorem lowerCut_looser : (a.looserLower b).lowerCut = min a.lowerCut b.lowerCut := by
  simp only [looserLower]
  by_cases h : a.lowerLE b = true
  · rw [if_pos h, min_eq_left ((lowerLE_iff ha hb).1 h)]
  · have hle := not_le.1 fun hle => h ((lowerLE_iff ha hb).2 hle)
    rw [if_neg h, min_eq_right hle.le]

theorem upperCut_tighter : (a.tighterUpper b).upperCut = min a.upperCut b.upperCut := by
  simp only [tighterUpper]
  by_cases h : a.upperGE b = true
  · rw [if_pos h, min_eq_right ((upperGE_iff ha hb).1 h)]
  · have hle := not_le.1 fun hle => h ((upperGE_iff ha hb).2 hle)
    rw [if_neg h, min_eq_left hle.le]

theorem upperCut_looser : (a.looserUpper b).upperCut = max a.upperCut b.upperCut := by
  simp only [looserUpper]
  by_cases h : a.upperGE b = true
  · rw [if_pos h, max_eq_left ((upperGE_iff ha hb).1 h)]
  · have hle := not_le.1 fun hle => h ((upperGE_iff ha hb).2 hle)
    rw [if_neg h, max_eq_right hle.le]

theorem gap_iff : Interval.gap a b = true ↔ a.upperCut < b.lowerCut := by
  simp only [Interval.gap, upperCut, lowerCut]
  rw [Bool.or_eq_true, Bool.and_eq_true, Bool.and_eq_true, Number.lt_iff ha hb,
    Number.beq_iff ha hb, Prod.Lex.toLex_lt_toLex]
  cases a.inclusive <;> cases b.inclusive <;> simp

theorem below_looserLower {x : ℝ} : (a.looserLower b).Below x ↔ a.Below x ∨ b.Below x := by
  have hnan := looserLower_of_both (P := (·.value.isNan = false)) ha hb
  rw [below_iff hnan, below_iff ha, below_iff hb, lowerCut_looser ha hb, min_le_iff]

theorem above_looserUpper {x : ℝ} : (a.looserUpper b).Above x ↔ a.Above x ∨ b.Above x := by
  have hnan := looserUpper_of_both (P := (·.value.isNan = false)) ha hb
  rw [above_iff hnan, above_iff ha, above_iff hb, upperCut_looser ha hb, lt_max_iff]

theorem below_tighterLower {x : ℝ} : (a.tighterLower b).Below x ↔ a.Below x ∧ b.Below x := by
  have hnan := tighterLower_of_both (P := (·.value.isNan = false)) ha hb
  rw [below_iff hnan, below_iff ha, below_iff hb, lowerCut_tighter ha hb, max_le_iff]

theorem above_tighterUpper {x : ℝ} : (a.tighterUpper b).Above x ↔ a.Above x ∧ b.Above x := by
  have hnan := tighterUpper_of_both (P := (·.value.isNan = false)) ha hb
  rw [above_iff hnan, above_iff ha, above_iff hb, upperCut_tighter ha hb, lt_min_iff]

end Compare

theorem Below.mono {b : Bound} {x y : ℝ} (h : b.Below x) (hxy : x ≤ y) : b.Below y := by
  have hb := h.1
  rw [below_iff hb] at h ⊢
  refine h.trans (Prod.Lex.toLex_le_toLex.2 ?_)
  rcases hxy.lt_or_eq with hlt | heq
  · exact .inl (EReal.coe_lt_coe_iff.2 hlt)
  · exact .inr ⟨congrArg Real.toEReal heq, le_rfl⟩

theorem Above.mono {b : Bound} {x y : ℝ} (h : b.Above x) (hyx : y ≤ x) : b.Above y := by
  have hb := h.1
  rw [above_iff hb] at h ⊢
  refine lt_of_le_of_lt (Prod.Lex.toLex_le_toLex.2 ?_) h
  rcases hyx.lt_or_eq with hlt | heq
  · exact .inl (EReal.coe_lt_coe_iff.2 hlt)
  · exact .inr ⟨congrArg Real.toEReal heq, le_rfl⟩

theorem Below.place_le {b : Bound} {x : ℝ} (h : b.Below x) : b.value.place ≤ x := by
  rcases h.2 with hlt | ⟨-, heq⟩
  · exact hlt.le
  · exact heq.le

theorem Above.le_place {b : Bound} {x : ℝ} (h : b.Above x) : (x : EReal) ≤ b.value.place := by
  rcases h.2 with hlt | ⟨-, heq⟩
  · exact hlt.le
  · exact heq.le

/-- An included end is not at infinity. -/
theorem place_of_inclusive {b : Bound} (hb : b.value.isNan = false) (h : b.inclusive = true) :
    ∃ x : ℝ, b.value.place = x := by
  obtain ⟨p, hp⟩ := Number.exists_position hb
  exact ⟨_, Number.place_finite (b.finite_of_inclusive h) hp⟩

/-- Between a lower end and a later cut lies a number, as the line is dense. -/
theorem exists_above_lower {b : Bound} (hb : b.value.isNan = false) {d : Cut}
    (h : b.lowerCut < d) : ∃ x : ℝ, b.lowerCut ≤ Cut.before x ∧ Cut.before x < d := by
  obtain ⟨q, after⟩ := d
  rcases Prod.Lex.toLex_lt_toLex.1 h with hlt | ⟨heq, hincl⟩
  · obtain ⟨x, hl, hu⟩ := EReal.lt_iff_exists_real_btwn.1 hlt
    exact ⟨x, Prod.Lex.toLex_le_toLex.2 (.inl hl), Prod.Lex.toLex_lt_toLex.2 (.inl hu)⟩
  · obtain ⟨hincl, hafter⟩ := Bool.lt_iff.1 hincl
    obtain ⟨x, hx⟩ := place_of_inclusive hb (by simpa using hincl)
    refine ⟨x, Prod.Lex.toLex_le_toLex.2 (.inr ⟨hx, hincl.le⟩),
      Prod.Lex.toLex_lt_toLex.2 (.inr ⟨hx.symm.trans heq, ?_⟩)⟩
    exact Bool.lt_iff.2 ⟨rfl, hafter⟩

theorem exists_below_upper {b : Bound} (hb : b.value.isNan = false) {d : Cut}
    (h : d < b.upperCut) : ∃ x : ℝ, d ≤ Cut.before x ∧ Cut.before x < b.upperCut := by
  obtain ⟨q, after⟩ := d
  rcases Prod.Lex.toLex_lt_toLex.1 h with hlt | ⟨heq, hincl⟩
  · obtain ⟨x, hl, hu⟩ := EReal.lt_iff_exists_real_btwn.1 hlt
    exact ⟨x, Prod.Lex.toLex_le_toLex.2 (.inl hl), Prod.Lex.toLex_lt_toLex.2 (.inl hu)⟩
  · obtain ⟨hafter, hincl⟩ := Bool.lt_iff.1 hincl
    obtain ⟨x, hx⟩ := place_of_inclusive hb hincl
    refine ⟨x, Prod.Lex.toLex_le_toLex.2 (.inr ⟨heq.trans hx, hafter.le⟩),
      Prod.Lex.toLex_lt_toLex.2 (.inr ⟨hx.symm, ?_⟩)⟩
    exact Bool.lt_iff.2 ⟨rfl, hincl⟩

theorem place_infinite {b : Bound} (hb : b.value.isNan = false) (hf : b.isFinite = false) :
    b.value.place = ⊥ ∨ b.value.place = ⊤ := by
  simp only [isFinite] at hf
  cases hv : b.value with
  | nan =>
    rw [hv] at hb
    cases hb
  | finite negative size =>
    rw [hv] at hf
    cases hf
  | infinite negative =>
    cases negative
    · exact .inr Number.line_overflow
    · exact .inl Number.line_neg_overflow

theorem Below.of_infinite {b : Bound} {x : ℝ} (h : b.Below x) (hf : b.isFinite = false) (y : ℝ) :
    b.Below y := by
  rcases place_infinite h.1 hf with hp | hp
  · exact ⟨h.1, .inl (hp ▸ EReal.bot_lt_coe y)⟩
  · rcases h.2 with hlt | ⟨-, heq⟩
    · rw [hp] at hlt
      exact absurd hlt not_top_lt
    · rw [hp] at heq
      exact absurd heq.symm (EReal.coe_ne_top x)

theorem Above.of_infinite {b : Bound} {x : ℝ} (h : b.Above x) (hf : b.isFinite = false) (y : ℝ) :
    b.Above y := by
  rcases place_infinite h.1 hf with hp | hp
  · rcases h.2 with hlt | ⟨-, heq⟩
    · rw [hp] at hlt
      exact absurd hlt not_lt_bot
    · rw [hp] at heq
      exact absurd heq (EReal.coe_ne_bot x)
  · exact ⟨h.1, .inl (hp ▸ EReal.coe_lt_top y)⟩

end Bound

namespace Interval
variable {i j : Interval} {x : ℝ}

structure Clean (i : Interval) : Prop where
  lower : i.lower.value.isNan = false
  upper : i.upper.value.isNan = false

theorem mem_iff (h : i.Clean) :
    i.Mem x ↔ i.lower.lowerCut ≤ Cut.before x ∧ Cut.before x < i.upper.upperCut := by
  simp only [Mem]
  rw [Bound.below_iff h.lower, Bound.above_iff h.upper]

theorem Mem.clean (h : i.Mem x) : i.Clean := ⟨h.1.1, h.2.1⟩

theorem isEmpty_iff (h : i.Clean) : i.isEmpty = true ↔ i.upper.upperCut ≤ i.lower.lowerCut := by
  simp only [isEmpty, Bound.upperCut, Bound.lowerCut]
  rw [h.lower, h.upper, Bool.false_or, Bool.false_or, Bool.or_eq_true, Bool.and_eq_true,
    Number.lt_iff h.upper h.lower, Number.beq_iff h.lower h.upper, Prod.Lex.toLex_le_toLex,
    eq_comm]
  cases i.lower.inclusive <;> cases i.upper.inclusive <;> simp

theorem clean_of_isEmpty (h : i.isEmpty = false) : i.Clean := by
  simp only [isEmpty] at h
  simp only [Bool.or_eq_false_iff] at h
  exact ⟨h.1.1.1, h.1.1.2⟩

theorem mem_unbounded (x : ℝ) : unbounded.Mem x := by
  have hlower : Bound.unboundedBelow.value.place = ⊥ := Number.line_neg_overflow
  have hupper : Bound.unboundedAbove.value.place = ⊤ := Number.line_overflow
  refine ⟨⟨rfl, .inl ?_⟩, rfl, .inl ?_⟩
  · exact hlower ▸ EReal.bot_lt_coe x
  · exact hupper ▸ EReal.coe_lt_top x

theorem lt_of_isEmpty (h : i.isEmpty = false) : i.lower.lowerCut < i.upper.upperCut := by
  have hiff := isEmpty_iff (clean_of_isEmpty h)
  rw [h] at hiff
  exact not_le.1 fun hle => Bool.false_ne_true (hiff.2 hle)

theorem isEmpty_of_mem (h : i.Mem x) : i.isEmpty = false := by
  rw [← Bool.not_eq_true, isEmpty_iff h.clean]
  obtain ⟨hl, hu⟩ := (mem_iff h.clean).1 h
  exact not_le.2 (lt_of_le_of_lt hl hu)

theorem exists_mem (h : i.isEmpty = false) : ∃ x, i.Mem x := by
  have hclean := clean_of_isEmpty h
  obtain ⟨x, hl, hu⟩ := Bound.exists_above_lower hclean.lower (lt_of_isEmpty h)
  exact ⟨x, (mem_iff hclean).2 ⟨hl, hu⟩⟩

/-- What is below all members is not above the lower end. -/
theorem le_lower (h : i.isEmpty = false) {c : EReal} (hc : ∀ x, i.Mem x → c ≤ x) :
    c ≤ i.lower.value.place := by
  obtain ⟨y, hy⟩ := exists_mem h
  by_contra hlt
  rw [not_le] at hlt
  have hly : i.lower.value.place < y := hlt.trans_le (hc y hy)
  obtain ⟨x, hlx, hx⟩ := EReal.lt_iff_exists_real_btwn.1 (lt_min hlt hly)
  obtain ⟨hxc, hxy⟩ := lt_min_iff.1 hx
  have hmem : i.Mem x := ⟨⟨hy.1.1, .inl hlx⟩, hy.2.mono (EReal.coe_lt_coe_iff.1 hxy).le⟩
  exact absurd (hc x hmem) hxc.not_ge

theorem upper_le (h : i.isEmpty = false) {c : EReal} (hc : ∀ x, i.Mem x → (x : EReal) ≤ c) :
    i.upper.value.place ≤ c := by
  obtain ⟨y, hy⟩ := exists_mem h
  by_contra hlt
  rw [not_le] at hlt
  have hyu : (y : EReal) < i.upper.value.place := (hc y hy).trans_lt hlt
  obtain ⟨x, hx, hxu⟩ := EReal.lt_iff_exists_real_btwn.1 (max_lt hlt hyu)
  obtain ⟨hcx, hyx⟩ := max_lt_iff.1 hx
  have hmem : i.Mem x := ⟨hy.1.mono (EReal.coe_lt_coe_iff.1 hyx).le, hy.2.1, .inl hxu⟩
  exact absurd (hc x hmem) hcx.not_ge

theorem nonempty?_eq_some {k : Interval} (h : i.nonempty? = some k) : k = i ∧ i.isEmpty = false := by
  simp only [nonempty?] at h
  split at h
  · cases h
  · rename_i hne
    cases h
    exact ⟨rfl, by simpa using hne⟩

theorem exists_nonempty?_iff {P : Interval → Prop} :
    (∃ k, i.nonempty? = some k ∧ P k) ↔ i.isEmpty = false ∧ P i := by
  constructor
  · intro hh
    obtain ⟨k, hk, hP⟩ := hh
    obtain ⟨rfl, hne⟩ := nonempty?_eq_some hk
    exact ⟨hne, hP⟩
  · intro hh
    obtain ⟨hne, hP⟩ := hh
    refine ⟨i, ?_, hP⟩
    simp only [nonempty?]
    rw [hne]
    rfl

theorem clean_inter (hi : i.Clean) (hj : j.Clean) :
    Clean ⟨i.lower.tighterLower j.lower, i.upper.tighterUpper j.upper⟩ where
  lower := Bound.tighterLower_of_both (P := (·.value.isNan = false)) hi.lower hj.lower
  upper := Bound.tighterUpper_of_both (P := (·.value.isNan = false)) hi.upper hj.upper

theorem clean_hull (hi : i.Clean) (hj : j.Clean) : (i.hull j).Clean where
  lower := Bound.looserLower_of_both (P := (·.value.isNan = false)) hi.lower hj.lower
  upper := Bound.looserUpper_of_both (P := (·.value.isNan = false)) hi.upper hj.upper

theorem mem_inter (hi : i.Clean) (hj : j.Clean) :
    Mem ⟨i.lower.tighterLower j.lower, i.upper.tighterUpper j.upper⟩ x ↔ i.Mem x ∧ j.Mem x := by
  rw [mem_iff (clean_inter hi hj), mem_iff hi, mem_iff hj,
    Bound.lowerCut_tighter hi.lower hj.lower, Bound.upperCut_tighter hi.upper hj.upper,
    max_le_iff, lt_min_iff]
  exact and_and_and_comm

theorem exists_intersect?_iff (hi : i.Clean) (hj : j.Clean) :
    (∃ k, i.intersect? j = some k ∧ k.Mem x) ↔ i.Mem x ∧ j.Mem x := by
  simp only [intersect?]
  rw [exists_nonempty?_iff, mem_inter hi hj]
  constructor
  · exact fun h => h.2
  · intro h
    exact ⟨isEmpty_of_mem ((mem_inter hi hj).2 h), h⟩

theorem connects_iff (hi : i.Clean) (hj : j.Clean) : i.connects j = true ↔
    j.lower.lowerCut ≤ i.upper.upperCut ∧ i.lower.lowerCut ≤ j.upper.upperCut := by
  simp only [connects]
  rw [Bool.and_eq_true, Bool.not_eq_true', Bool.not_eq_true', ← Bool.not_eq_true,
    ← Bool.not_eq_true, Bound.gap_iff hi.upper hj.lower, Bound.gap_iff hj.upper hi.lower,
    not_lt, not_lt]

theorem mem_hull_iff (hi : i.Clean) (hj : j.Clean) : (i.hull j).Mem x ↔
    min i.lower.lowerCut j.lower.lowerCut ≤ Cut.before x ∧
      Cut.before x < max i.upper.upperCut j.upper.upperCut := by
  rw [mem_iff (clean_hull hi hj)]
  simp only [hull]
  rw [Bound.lowerCut_looser hi.lower hj.lower, Bound.upperCut_looser hi.upper hj.upper]

theorem isEmpty_hull (hi : i.isEmpty = false) (hj : j.isEmpty = false) :
    (i.hull j).isEmpty = false := by
  obtain ⟨x, hx⟩ := exists_mem hi
  have hci := clean_of_isEmpty hi
  have hcj := clean_of_isEmpty hj
  obtain ⟨hl, hu⟩ := (mem_iff hci).1 hx
  have hmem : (i.hull j).Mem x :=
    (mem_hull_iff hci hcj).2 ⟨min_le_of_left_le hl, lt_max_of_lt_left hu⟩
  exact isEmpty_of_mem hmem

theorem mem_hull (hi : i.isEmpty = false) (hj : j.isEmpty = false) (h : i.connects j = true) :
    (i.hull j).Mem x ↔ i.Mem x ∨ j.Mem x := by
  have hci := clean_of_isEmpty hi
  have hcj := clean_of_isEmpty hj
  obtain ⟨hji, hij⟩ := (connects_iff hci hcj).1 h
  rw [mem_hull_iff hci hcj, mem_iff hci, mem_iff hcj, min_le_iff, lt_max_iff]
  constructor
  · intro hh
    rcases hh with ⟨hl | hl, hu | hu⟩
    · exact .inl ⟨hl, hu⟩
    · rcases lt_or_ge (Cut.before x) i.upper.upperCut with hlt | hge
      · exact .inl ⟨hl, hlt⟩
      · exact .inr ⟨hji.trans hge, hu⟩
    · rcases lt_or_ge (Cut.before x) j.upper.upperCut with hlt | hge
      · exact .inr ⟨hl, hlt⟩
      · exact .inl ⟨hij.trans hge, hu⟩
    · exact .inr ⟨hl, hu⟩
  · intro hh
    rcases hh with ⟨hl, hu⟩ | ⟨hl, hu⟩
    · exact ⟨.inl hl, .inl hu⟩
    · exact ⟨.inr hl, .inr hu⟩

theorem mem_of_contains (hi : i.Clean) (hj : j.Clean) (h : i.contains j = true) (hx : j.Mem x) :
    i.Mem x := by
  simp only [contains] at h
  rw [Bool.and_eq_true, Bound.lowerLE_iff hi.lower hj.lower, Bound.upperGE_iff hi.upper hj.upper]
    at h
  obtain ⟨hl, hu⟩ := (mem_iff hj).1 hx
  exact (mem_iff hi).2 ⟨h.1.trans hl, lt_of_lt_of_le hu h.2⟩

section Lists
variable {α : Type} {good : Interval → Prop} {value : α → ℝ}

/-- Good intervals between them have exactly the members for which `P` holds. -/
structure Lists (good : Interval → Prop) (value : α → ℝ) (intervals : List Interval)
    (P : α → Prop) : Prop where
  good : ∀ i ∈ intervals, good i
  mem : ∀ a, (∃ i ∈ intervals, i.Mem (value a)) ↔ P a

variable {xs ys : List Interval} {P Q : α → Prop}

theorem Lists.congr (h : Lists good value xs P) (hPQ : ∀ a, P a ↔ Q a) :
    Lists good value xs Q where
  good := h.good
  mem a := (h.mem a).trans (hPQ a)

theorem Lists.nil : Lists good value [] (fun _ => False) where
  good i h := by cases h
  mem a := by simp

theorem Lists.of_good (h : ∀ i ∈ xs, good i) :
    Lists good value xs (fun a => ∃ i ∈ xs, i.Mem (value a)) where
  good := h
  mem _ := Iff.rfl

theorem Lists.append (hx : Lists good value xs P) (hy : Lists good value ys Q) :
    Lists good value (xs ++ ys) (fun a => P a ∨ Q a) where
  good i h := by
    rcases List.mem_append.1 h with h | h
    · exact hx.good i h
    · exact hy.good i h
  mem a := by
    rw [← hx.mem, ← hy.mem]
    simp only [List.mem_append, or_and_right, exists_or]

theorem Lists.cons (hi : good i) (h : Lists good value xs P) :
    Lists good value (i :: xs) (fun a => i.Mem (value a) ∨ P a) where
  good j hj := by
    rcases List.mem_cons.1 hj with rfl | hj
    · exact hi
    · exact h.good j hj
  mem a := by
    rw [← h.mem]
    simp only [List.mem_cons, exists_eq_or_imp]

theorem Lists.perm (h : Lists good value xs P) (hp : ys.Perm xs) : Lists good value ys P where
  good i hi := h.good i (hp.mem_iff.1 hi)
  mem a := by
    rw [← h.mem]
    simp only [hp.mem_iff]

theorem Lists.of_nonempty? (h : i.isEmpty = false → good i) :
    Lists good value i.nonempty?.toList (fun a => i.Mem (value a)) where
  good k hk := by
    obtain ⟨rfl, hne⟩ := nonempty?_eq_some (Option.mem_toList.1 hk)
    exact h hne
  mem a := by
    simp only [Option.mem_toList]
    rw [exists_nonempty?_iff]
    constructor
    · exact fun h => h.2
    · exact fun h => ⟨isEmpty_of_mem h, h⟩

theorem Lists.flatMap {pieces : Interval → List Interval} {R : Interval → α → Prop}
    (h : ∀ i ∈ xs, Lists good value (pieces i) (R i)) :
    Lists good value (xs.flatMap pieces) (fun a => ∃ i ∈ xs, R i a) where
  good k hk := by
    obtain ⟨i, hi, hk⟩ := List.mem_flatMap.1 hk
    exact (h i hi).good k hk
  mem a := by
    constructor
    · intro hh
      obtain ⟨k, hk, ha⟩ := hh
      obtain ⟨i, hi, hk⟩ := List.mem_flatMap.1 hk
      exact ⟨i, hi, ((h i hi).mem a).1 ⟨k, hk, ha⟩⟩
    · intro hh
      obtain ⟨i, hi, ha⟩ := hh
      obtain ⟨k, hk, ha⟩ := ((h i hi).mem a).2 ha
      exact ⟨k, List.mem_flatMap.2 ⟨i, hi, hk⟩, ha⟩

end Lists

end Interval
end TypedFlow
