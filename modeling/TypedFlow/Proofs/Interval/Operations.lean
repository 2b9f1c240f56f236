import TypedFlow.Proofs.Interval.Limit

/-!
# Operations on intervals and their members

What is asked of intervals agrees with their members, be these real numbers or single numbers
between the ends. Two things fall outside. A point at infinity is empty, since no infinite end is
included, and it counts as contained wherever an end is infinite as well. And an intersection keeps
the ends of its left operand unless those of the right one are tighter, which NaN never is, so that
a right operand without members leaves the left one as it is if both its ends are NaN.
-/
namespace TypedFlow

namespace Number
variable {a b : Number}

theorem isNan_of_position {p : ℤ} (h : a.position? = some p) : a.isNan = false := by
  cases a with
  | nan => cases h
  | infinite negative => rfl
  | finite negative size => rfl

-- NaN is neither below nor above nor equal to anything.

theorem isNan_of_lt (h : a.lt b = true) : a.isNan = false ∧ b.isNan = false := by
  simp only [lt] at h
  split at h
  · rename_i hp hq
    exact ⟨isNan_of_position hp, isNan_of_position hq⟩
  · cases h

theorem isNan_of_beq (h : (a == b) = true) : a.isNan = false ∧ b.isNan = false := by
  change a.equal b = true at h
  simp only [equal] at h
  split at h
  · rename_i hp hq
    exact ⟨isNan_of_position hp, isNan_of_position hq⟩
  · cases h

theorem exists_place (h : a.isFinite = true) : ∃ x : ℝ, a.place = x := by
  obtain ⟨p, hp⟩ := exists_position (isNan_of_isFinite h)
  exact ⟨_, place_finite h hp⟩

theorem place_infinity : (infinite false).place = ⊤ := line_overflow

theorem place_negInfinity : (infinite true).place = ⊥ := line_neg_overflow

end Number

namespace Bound

/-- As a lower end, lets a number pass. -/
def BelowNumber (b : Bound) (v : Number) : Prop :=
  b.value.lt v = true ∨ b.inclusive = true ∧ (b.value == v) = true

/-- As an upper end, lets a number pass. -/
def AboveNumber (b : Bound) (v : Number) : Prop :=
  v.lt b.value = true ∨ b.inclusive = true ∧ (b.value == v) = true

variable {a b : Bound} {v : Number} {x : ℝ}

theorem BelowNumber.isNan (h : b.BelowNumber v) : b.value.isNan = false ∧ v.isNan = false := by
  rcases h with hlt | ⟨-, heq⟩
  · exact Number.isNan_of_lt hlt
  · exact Number.isNan_of_beq heq

theorem AboveNumber.isNan (h : b.AboveNumber v) : b.value.isNan = false ∧ v.isNan = false := by
  rcases h with hlt | ⟨-, heq⟩
  · exact (Number.isNan_of_lt hlt).symm
  · exact Number.isNan_of_beq heq

theorem belowNumber_iff (hv : v.isNan = false) (hx : v.place = x) :
    b.BelowNumber v ↔ b.Below x := by
  constructor
  · intro h
    have hb := h.isNan.1
    simp only [BelowNumber] at h
    rw [Number.lt_iff hb hv, Number.beq_iff hb hv, hx] at h
    exact ⟨hb, h⟩
  · intro h
    simp only [BelowNumber]
    rw [Number.lt_iff h.1 hv, Number.beq_iff h.1 hv, hx]
    exact h.2

theorem aboveNumber_iff (hv : v.isNan = false) (hx : v.place = x) :
    b.AboveNumber v ↔ b.Above x := by
  constructor
  · intro h
    have hb := h.isNan.1
    simp only [AboveNumber] at h
    rw [Number.lt_iff hv hb, Number.beq_iff hb hv, hx, eq_comm (a := b.value.place)] at h
    exact ⟨hb, h⟩
  · intro h
    simp only [AboveNumber]
    rw [Number.lt_iff hv h.1, Number.beq_iff h.1 hv, hx, eq_comm (a := b.value.place)]
    exact h.2

theorem isNan_of_lowerLE (h : a.lowerLE b = true) :
    a.value.isNan = false ∧ b.value.isNan = false := by
  simp only [lowerLE] at h
  rcases Bool.or_eq_true_iff.1 h with hlt | heq
  · exact Number.isNan_of_lt hlt
  · exact Number.isNan_of_beq (Bool.and_eq_true_iff.1 heq).1

theorem isNan_of_upperGE (h : a.upperGE b = true) :
    a.value.isNan = false ∧ b.value.isNan = false := by
  simp only [upperGE] at h
  rcases Bool.or_eq_true_iff.1 h with hlt | heq
  · exact (Number.isNan_of_lt hlt).symm
  · exact Number.isNan_of_beq (Bool.and_eq_true_iff.1 heq).1

section Infinite
variable (hv : v.isNan = false) (hf : v.isFinite = false)
include hv hf

-- The point at an infinite number has no included end, so it is enough that the end is not past it.

theorem lowerLE_closed_infinite :
    b.lowerLE (closed v) = true ↔ b.value.isNan = false ∧ b.value.place ≤ v.place := by
  have hopen : b.lowerLE (closed v) = true ↔ b.value.lt v = true ∨ (b.value == v) = true := by
    simp [lowerLE, closed, Bound.of, hf]
  constructor
  · intro h
    have hb := (isNan_of_lowerLE h).1
    rw [hopen, Number.lt_iff hb hv, Number.beq_iff hb hv] at h
    exact ⟨hb, le_iff_lt_or_eq.2 h⟩
  · intro h
    rw [hopen, Number.lt_iff h.1 hv, Number.beq_iff h.1 hv]
    exact le_iff_lt_or_eq.1 h.2

theorem upperGE_closed_infinite :
    b.upperGE (closed v) = true ↔ b.value.isNan = false ∧ v.place ≤ b.value.place := by
  have hopen : b.upperGE (closed v) = true ↔ v.lt b.value = true ∨ (b.value == v) = true := by
    simp [upperGE, closed, Bound.of, hf]
  constructor
  · intro h
    have hb := (isNan_of_upperGE h).1
    rw [hopen, Number.lt_iff hv hb, Number.beq_iff hb hv, eq_comm] at h
    exact ⟨hb, le_iff_lt_or_eq.2 h⟩
  · intro h
    rw [hopen, Number.lt_iff hv h.1, Number.beq_iff h.1 hv, eq_comm]
    exact le_iff_lt_or_eq.1 h.2

end Infinite

-- The left end stays where one of the two is NaN, whichever it is.

theorem tighterLower_of_isNan (h : ¬ (a.value.isNan = false ∧ b.value.isNan = false)) :
    a.tighterLower b = a := if_neg fun hle => h (isNan_of_lowerLE hle)

theorem tighterUpper_of_isNan (h : ¬ (a.value.isNan = false ∧ b.value.isNan = false)) :
    a.tighterUpper b = a := if_neg fun hge => h (isNan_of_upperGE hge)

end Bound

namespace Interval

/-- A number lies between the ends, or at one that is included. -/
def HasNumber (i : Interval) (v : Number) : Prop :=
  i.lower.BelowNumber v ∧ i.upper.AboveNumber v

variable {i j k : Interval} {v : Number} {x : ℝ}

theorem hasNumber_iff_mem (hv : v.isNan = false) (hx : v.place = x) : i.HasNumber v ↔ i.Mem x :=
  and_congr (Bound.belowNumber_iff hv hx) (Bound.aboveNumber_iff hv hx)

section Numbers

theorem containsValue_iff_of_finite (hf : v.isFinite = true) :
    i.containsValue v = true ↔ i.HasNumber v := by
  have hpoint : (Bound.closed v).inclusive = true := by simp [Bound.closed, Bound.of, hf]
  simp only [containsValue, contains, point, Bound.lowerLE, Bound.upperGE, HasNumber,
    Bound.BelowNumber, Bound.AboveNumber]
  rw [hpoint]
  simp [Bound.closed, Bound.of, and_comm]

/-- No interval has an infinite number, as no end at infinity is included. -/
theorem not_hasNumber_infinite (negative : Bool) : ¬ i.HasNumber (.infinite negative) := by
  intro hh
  obtain ⟨hl, hu⟩ := hh
  cases negative with
  | false =>
    have hb := hu.isNan.1
    rcases hu with hlt | ⟨hincl, heq⟩
    · rw [Number.lt_iff rfl hb, Number.place_infinity] at hlt
      exact not_top_lt hlt
    · obtain ⟨x, hx⟩ := Bound.place_of_inclusive hb hincl
      rw [Number.beq_iff hb rfl, hx, Number.place_infinity] at heq
      exact EReal.coe_ne_top x heq
  | true =>
    have hb := hl.isNan.1
    rcases hl with hlt | ⟨hincl, heq⟩
    · rw [Number.lt_iff hb rfl, Number.place_negInfinity] at hlt
      exact not_lt_bot hlt
    · obtain ⟨x, hx⟩ := Bound.place_of_inclusive hb hincl
      rw [Number.beq_iff hb rfl, hx, Number.place_negInfinity] at heq
      exact EReal.coe_ne_bot x heq

/-- An infinite number counts as contained also where the end that it lies at is not included. -/
theorem containsValue_infinite_iff (negative : Bool) : i.containsValue (.infinite negative) = true ↔
    i.Clean ∧ i.lower.value.place ≤ (Number.infinite negative).place ∧
      (Number.infinite negative).place ≤ i.upper.value.place := by
  simp only [containsValue, contains, point]
  rw [Bool.and_eq_true, Bound.lowerLE_closed_infinite rfl rfl, Bound.upperGE_closed_infinite rfl rfl]
  constructor
  · intro hh
    obtain ⟨⟨hl, hle⟩, hu, hge⟩ := hh
    exact ⟨⟨hl, hu⟩, hle, hge⟩
  · intro hh
    obtain ⟨⟨hl, hu⟩, hle, hge⟩ := hh
    exact ⟨⟨hl, hle⟩, hu, hge⟩

example : unbounded.containsValue .infinity = true := by decide +kernel

end Numbers

section Intersections

theorem Clean.left (h : Clean ⟨i.lower.tighterLower j.lower, i.upper.tighterUpper j.upper⟩) :
    i.Clean := by
  obtain ⟨hl, hu⟩ := h
  constructor
  · by_contra hnan
    rw [Bound.tighterLower_of_isNan fun hh => hnan hh.1] at hl
    exact hnan hl
  · by_contra hnan
    rw [Bound.tighterUpper_of_isNan fun hh => hnan hh.1] at hu
    exact hnan hu

theorem clean_of_intersect? (h : i.intersect? j = some k) : i.Clean := by
  obtain ⟨rfl, hne⟩ := nonempty?_eq_some h
  exact (clean_of_isEmpty hne).left

section Clean
variable (h : i.Clean → j.Clean)
include h

theorem mem_intersect?_iff (hk : i.intersect? j = some k) : k.Mem x ↔ i.Mem x ∧ j.Mem x := by
  have hi := clean_of_intersect? hk
  rw [← exists_intersect?_iff hi (h hi), hk]
  simp

theorem hasNumber_intersect?_iff (hk : i.intersect? j = some k) (hf : v.isFinite = true) :
    k.HasNumber v ↔ i.HasNumber v ∧ j.HasNumber v := by
  have hv := Number.isNan_of_isFinite hf
  obtain ⟨x, hx⟩ := Number.exists_place hf
  rw [hasNumber_iff_mem hv hx, hasNumber_iff_mem hv hx, hasNumber_iff_mem hv hx]
  exact mem_intersect?_iff h hk

theorem intersect?_eq_none_iff : i.intersect? j = none ↔ ¬ ∃ x, i.Mem x ∧ j.Mem x := by
  cases hk : i.intersect? j with
  | none =>
    simp only [true_iff]
    intro hh
    obtain ⟨x, hi, hj⟩ := hh
    obtain ⟨k, hk', -⟩ := (exists_intersect?_iff hi.clean hj.clean).2 ⟨hi, hj⟩
    cases hk.symm.trans hk'
  | some k =>
    have hne : k.isEmpty = false := by
      obtain ⟨rfl, hne⟩ := nonempty?_eq_some hk
      exact hne
    obtain ⟨x, hx⟩ := exists_mem hne
    simp only [reduceCtorEq, false_iff, not_not]
    exact ⟨x, (mem_intersect?_iff h hk).1 hx⟩

end Clean

/-- A right operand with ends that are NaN leaves what it is intersected with as it is. -/
theorem intersect?_of_isNan (hi : i.isEmpty = false) (hl : j.lower.value.isNan = true)
    (hu : j.upper.value.isNan = true) : i.intersect? j = some i ∧ ∀ x, ¬ j.Mem x := by
  constructor
  · have hl : i.lower.tighterLower j.lower = i.lower :=
      Bound.tighterLower_of_isNan fun hh => by simp [hl] at hh
    have hu : i.upper.tighterUpper j.upper = i.upper :=
      Bound.tighterUpper_of_isNan fun hh => by simp [hu] at hh
    simp only [intersect?, nonempty?]
    rw [hl, hu, hi]
    rfl
  · intro x hx
    rw [hx.clean.lower] at hl
    cases hl

end Intersections

section Containment

/-- Of what is not empty the ends tell exactly whether all members are members. -/
theorem contains_iff (hj : j.isEmpty = false) : i.contains j = true ↔ ∀ x, j.Mem x → i.Mem x := by
  have hcj := clean_of_isEmpty hj
  constructor
  · intro h x hx
    have hends := Bool.and_eq_true_iff.1 h
    have hci : i.Clean := ⟨(Bound.isNan_of_lowerLE hends.1).1, (Bound.isNan_of_upperGE hends.2).1⟩
    exact mem_of_contains hci hcj h hx
  · intro h
    obtain ⟨y, hy⟩ := exists_mem hj
    have hci := (h y hy).clean
    have hlt := lt_of_isEmpty hj
    have hall : ∀ x : ℝ, j.lower.lowerCut ≤ Cut.before x → Cut.before x < j.upper.upperCut →
        i.lower.lowerCut ≤ Cut.before x ∧ Cut.before x < i.upper.upperCut :=
      fun x hl hu => (mem_iff hci).1 (h x ((mem_iff hcj).2 ⟨hl, hu⟩))
    simp only [contains]
    rw [Bool.and_eq_true, Bound.lowerLE_iff hci.lower hcj.lower,
      Bound.upperGE_iff hci.upper hcj.upper]
    -- an end of `i` inside `j` would leave a number of `j` outside `i`
    constructor
    · by_contra hnot
      obtain ⟨x, hl, hx⟩ := Bound.exists_above_lower hcj.lower (lt_min (not_le.1 hnot) hlt)
      obtain ⟨hxi, hxj⟩ := lt_min_iff.1 hx
      exact absurd (hall x hl hxj).1 (not_le.2 hxi)
    · by_contra hnot
      obtain ⟨x, hx, hu⟩ := Bound.exists_below_upper hcj.upper (max_lt (not_le.1 hnot) hlt)
      obtain ⟨hxi, hxj⟩ := max_le_iff.1 hx
      exact absurd (hall x hxj hu).2 (not_lt.2 hxi)

end Containment

section Integers
variable (h : i.Moderate)
include h

theorem mem_integers?_iff (hk : i.integers? = some k) (z : ℤ) : k.Mem z ↔ i.Mem z := by
  rw [← (lists_integers? (rounds_of_modest (.inl h.lower) (.inl h.upper))).mem z, hk]
  simp

theorem integers?_eq_none_iff : i.integers? = none ↔ ¬ ∃ z : ℤ, i.Mem z := by
  cases hk : i.integers? with
  | none =>
    have hlists := lists_integers? (rounds_of_modest (.inl h.lower) (.inl h.upper))
    rw [hk] at hlists
    simp only [true_iff]
    intro hh
    obtain ⟨z, hz⟩ := hh
    obtain ⟨k, hk, -⟩ := (hlists.mem z).2 hz
    cases hk
  | some k =>
    obtain ⟨z, hz⟩ := (integral_integers? hk).exists_int
    simp only [reduceCtorEq, false_iff, not_not]
    exact ⟨z, (mem_integers?_iff h hk z).1 hz⟩

end Integers

/-- For finite numbers, and where no end on the right alone is NaN, each operation is that on the
members. -/
theorem operations_agree_with_members (i j : Interval) :
    (∀ v : Number, v.isFinite = true → (i.containsValue v = true ↔ i.HasNumber v)) ∧
    ((i.Clean → j.Clean) → (i.intersect? j = none ↔ ¬ ∃ x, i.Mem x ∧ j.Mem x) ∧
      ∀ k, i.intersect? j = some k → ∀ v : Number, v.isFinite = true →
        (k.HasNumber v ↔ i.HasNumber v ∧ j.HasNumber v)) ∧
    (j.isEmpty = false → (i.contains j = true ↔ ∀ x, j.Mem x → i.Mem x)) ∧
    (i.Moderate → (i.integers? = none ↔ ¬ ∃ z : ℤ, i.Mem z) ∧
      ∀ k, i.integers? = some k → k.Integral ∧ ∀ z : ℤ, k.Mem z ↔ i.Mem z) := by
  refine ⟨fun v => containsValue_iff_of_finite, fun h => ⟨intersect?_eq_none_iff h, ?_⟩,
    contains_iff, fun h => ⟨integers?_eq_none_iff h, ?_⟩⟩
  · exact fun k hk v hf => hasNumber_intersect?_iff h hk hf
  · exact fun k hk => ⟨integral_integers? hk, mem_integers?_iff h hk⟩

end Interval
end TypedFlow
