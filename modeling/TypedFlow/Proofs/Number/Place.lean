import Mathlib.Data.EReal.Operations
import Mathlib.Tactic.Linarith
import TypedFlow.Number.Arithmetic
import TypedFlow.Proofs.Number.Nearest

/-!
# Numbers on the extended line

Every number but NaN has a place on the extended real line, and the order and equality of numbers
are those of their places. Integers up to 2^53 are held exactly, so rounding to an integer and
taking one step from an integer are exact wherever the result stays below that.
-/
namespace TypedFlow.Number

/-- The place of a count of least steps; what overflows is at the ends of the line. -/
noncomputable def line (p : ℤ) : EReal :=
  if (overflowUnits : ℤ) ≤ p then ⊤
  else if p ≤ -overflowUnits then ⊥
  else (((p : ℝ) / (unitsPerOne : ℝ) : ℝ) : EReal)

/-- The place of a number. NaN has none; what stands here for it is never used. -/
noncomputable def place (a : Number) : EReal := line (a.position?.getD 0)

section Order

theorem line_of_lt {p : ℤ} (hl : -(overflowUnits : ℤ) < p) (hu : p < overflowUnits) :
    line p = (((p : ℝ) / (unitsPerOne : ℝ) : ℝ) : EReal) := by
  simp only [line]
  rw [if_neg (not_le.2 hu), if_neg (not_le.2 hl)]

theorem line_overflow : line overflowUnits = ⊤ := if_pos le_rfl

theorem line_neg_overflow : line (-overflowUnits) = ⊥ := by
  have hpos := overflowUnits_pos
  simp only [line]
  rw [if_neg (by omega), if_pos le_rfl]

theorem div_units_lt {p q : ℤ} :
    (p : ℝ) / (unitsPerOne : ℝ) < (q : ℝ) / (unitsPerOne : ℝ) ↔ p < q := by
  have hpos : (0 : ℝ) < (unitsPerOne : ℝ) := Nat.cast_pos.2 unitsPerOne_pos
  rw [div_lt_div_iff_of_pos_right hpos]
  exact Int.cast_lt

theorem line_lt {p q : ℤ} (hp : -(overflowUnits : ℤ) ≤ p) (hq : q ≤ overflowUnits) (h : p < q) :
    line p < line q := by
  have hu : p < overflowUnits := lt_of_lt_of_le h hq
  have hl : -(overflowUnits : ℤ) < q := lt_of_le_of_lt hp h
  rcases eq_or_lt_of_le hp with rfl | hp
  · rw [line_neg_overflow]
    rcases eq_or_lt_of_le hq with rfl | hq
    · rw [line_overflow]
      exact bot_lt_top
    · rw [line_of_lt hl hq]
      exact EReal.bot_lt_coe _
  · rw [line_of_lt hp hu]
    rcases eq_or_lt_of_le hq with rfl | hq
    · rw [line_overflow]
      exact EReal.coe_lt_top _
    · rw [line_of_lt hl hq, EReal.coe_lt_coe_iff]
      exact div_units_lt.2 h

theorem position?_bounds {a : Number} {p : ℤ} (h : a.position? = some p) :
    -(overflowUnits : ℤ) ≤ p ∧ p ≤ overflowUnits := by
  cases a with
  | nan => cases h
  | infinite negative =>
    cases h
    cases negative
    · simp only [signed, Bool.false_eq_true, if_false]
      omega
    · simp only [signed, if_true]
      omega
  | finite negative size =>
    cases h
    have hlt := size.onGrid.2
    cases negative
    · simp only [signed, Bool.false_eq_true, if_false]
      omega
    · simp only [signed, if_true]
      omega

theorem exists_position {a : Number} (h : a.isNan = false) : ∃ p, a.position? = some p := by
  cases a with
  | nan => cases h
  | infinite negative => exact ⟨_, rfl⟩
  | finite negative size => exact ⟨_, rfl⟩

theorem place_eq {a : Number} {p : ℤ} (h : a.position? = some p) : a.place = line p := by
  rw [place, h]
  rfl

variable {a b : Number} (ha : a.isNan = false) (hb : b.isNan = false)
include ha hb

theorem lt_iff : a.lt b = true ↔ a.place < b.place := by
  obtain ⟨p, hp⟩ := exists_position ha
  obtain ⟨q, hq⟩ := exists_position hb
  have hpb := position?_bounds hp
  have hqb := position?_bounds hq
  have hlt : a.lt b = true ↔ p < q := by simp [lt, hp, hq]
  rw [hlt, place_eq hp, place_eq hq]
  constructor
  · exact line_lt hpb.1 hqb.2
  · intro h
    by_contra hge
    rcases eq_or_lt_of_le (not_lt.1 hge) with rfl | hgt
    · exact lt_irrefl _ h
    · exact lt_asymm h (line_lt hqb.1 hpb.2 hgt)

theorem beq_iff : (a == b) = true ↔ a.place = b.place := by
  obtain ⟨p, hp⟩ := exists_position ha
  obtain ⟨q, hq⟩ := exists_position hb
  have hpb := position?_bounds hp
  have hqb := position?_bounds hq
  have heq : (a == b) = true ↔ p = q := by
    change a.equal b = true ↔ p = q
    simp [equal, hp, hq]
  rw [heq, place_eq hp, place_eq hq]
  constructor
  · rintro rfl
    rfl
  · intro h
    rcases lt_trichotomy p q with hlt | heq | hgt
    · exact absurd h (ne_of_lt (line_lt hpb.1 hqb.2 hlt))
    · exact heq
    · exact absurd h (ne_of_gt (line_lt hqb.1 hpb.2 hgt))

end Order

section Exact

theorem mul_pow_lt {m e k : ℕ} (h : m < Nat.pow 2 53) (he : e + 53 ≤ k) :
    m * Nat.pow 2 e < Nat.pow 2 k := by
  have hlt : m * Nat.pow 2 e < Nat.pow 2 53 * Nat.pow 2 e :=
    Nat.mul_lt_mul_of_pos_right h (Nat.two_pow_pos e)
  have heq : Nat.pow 2 53 * Nat.pow 2 e = Nat.pow 2 (e + 53) := by
    rw [Nat.mul_comm]
    exact (Nat.pow_add 2 e 53).symm
  rw [heq] at hlt
  exact lt_of_lt_of_le hlt (Nat.pow_le_pow_right (by omega) he)

-- The exponents are made variables, or else the powers are computed.

theorem int_lt_overflow {m : ℕ} (h : m < Nat.pow 2 53) : m * unitsPerOne < overflowUnits := by
  have he : 1074 + 53 ≤ 2098 := by omega
  unfold unitsPerOne overflowUnits
  generalize 1074 = e at he ⊢
  generalize 2098 = k at he ⊢
  exact mul_pow_lt h he

theorem onGrid_of_lt {m : ℕ} (h : m < Nat.pow 2 53) : OnGrid (m * unitsPerOne) := by
  refine ⟨?_, int_lt_overflow h⟩
  unfold unitsPerOne
  generalize 1074 = e
  exact ⟨m, e, h.le, rfl⟩

theorem ofUnits_of_onGrid {n : ℕ} (h : OnGrid n) (negative : Bool) :
    ofUnits negative n = .finite negative ⟨n, h⟩ := by
  have hnearest : nearestUnits n 1 = n := nearestUnits_of_close h (by omega) (by omega)
  exact ofRatio_of_nearest Nat.one_pos hnearest

/-- A finite number whose value is an integer. -/
structure Holds (a : Number) (z : ℤ) : Prop where
  isFinite : a.isFinite = true
  position : a.position? = some (z * unitsPerOne)

theorem signed_mul (negative : Bool) (m u : ℕ) :
    signed negative (m * u) = signed negative m * u := by
  cases negative
  · simp [signed]
  · simp [signed]

theorem holds_of_onGrid {m : ℕ} (h : OnGrid (m * unitsPerOne)) (negative : Bool) :
    (ofUnits negative (m * unitsPerOne)).Holds (signed negative m) := by
  rw [ofUnits_of_onGrid h]
  exact ⟨rfl, congrArg some (signed_mul negative m _)⟩

theorem holds_ofUnits {m : ℕ} (h : m < Nat.pow 2 53) (negative : Bool) :
    (ofUnits negative (m * unitsPerOne)).Holds (signed negative m) :=
  holds_of_onGrid (onGrid_of_lt h) negative

theorem isNan_of_isFinite {a : Number} (h : a.isFinite = true) : a.isNan = false := by
  cases a with
  | nan => cases h
  | infinite negative => rfl
  | finite negative size => rfl

theorem exists_eq_finite {a : Number} (h : a.isFinite = true) :
    ∃ negative x, a = .finite negative x := by
  cases a with
  | nan => cases h
  | infinite negative => cases h
  | finite negative size => exact ⟨negative, size, rfl⟩

theorem isFinite_neg {a : Number} : (-a).isFinite = a.isFinite := by
  cases a <;> rfl

theorem signed_not (negative : Bool) (count : ℕ) :
    signed (!negative) count = -signed negative count := by
  cases negative
  · simp [signed]
  · simp [signed]

theorem position?_neg {a : Number} {p : ℤ} (h : a.position? = some p) :
    (-a).position? = some (-p) := by
  cases a with
  | nan => cases h
  | infinite negative =>
    cases h
    exact congrArg some (signed_not negative _)
  | finite negative size =>
    cases h
    exact congrArg some (signed_not negative _)

theorem Holds.neg {a : Number} {z : ℤ} (h : a.Holds z) : (-a).Holds (-z) where
  isFinite := isFinite_neg.trans h.isFinite
  position := by
    rw [position?_neg h.position, Int.neg_mul]

theorem holds_ofNat {n : ℕ} (h : n < Nat.pow 2 53) : (ofNat n).Holds n :=
  holds_ofUnits h false

theorem holds_zero : (0 : Number).Holds 0 := by
  have h : (ofNat 0).Holds (0 : ℕ) := holds_ofNat (by decide)
  exact h

theorem holds_one : (1 : Number).Holds 1 := by
  have h : (ofNat 1).Holds (1 : ℕ) := holds_ofNat (by decide)
  exact h

theorem signed_natAbs (s : ℤ) : signed (decide (s < 0)) s.natAbs = s := by
  simp only [signed, decide_eq_true_eq]
  split <;> omega

theorem signed_zero (negative : Bool) : signed negative 0 = 0 := by
  simp only [signed]
  split <;> rfl

theorem natAbs_signed (negative : Bool) (count : ℕ) : (signed negative count).natAbs = count := by
  simp only [signed]
  split <;> omega

theorem finite_add_finite (p q : Bool) (x y : Magnitude) : finite p x + finite q y =
    if signed p x.units + signed q y.units = 0 then ofUnits (p && q) 0
    else ofUnits (signed p x.units + signed q y.units < 0)
      (signed p x.units + signed q y.units).natAbs := rfl

/-- A sum that can be held is not rounded. -/
theorem position?_add {a b : Number} {p q : ℤ} (ha : a.isFinite = true) (hb : b.isFinite = true)
    (hp : a.position? = some p) (hq : b.position? = some q) (h : OnGrid (p + q).natAbs) :
    (a + b).isFinite = true ∧ (a + b).position? = some (p + q) := by
  obtain ⟨negative, x, rfl⟩ := exists_eq_finite ha
  obtain ⟨negative', y, rfl⟩ := exists_eq_finite hb
  have hsum : signed negative x.units + signed negative' y.units = p + q :=
    congrArg₂ (· + ·) (Option.some.inj hp) (Option.some.inj hq)
  rw [finite_add_finite, hsum]
  by_cases hz : p + q = 0
  · rw [if_pos hz, ofUnits_of_onGrid onGrid_zero]
    exact ⟨rfl, congrArg some ((signed_zero _).trans hz.symm)⟩
  · rw [if_neg hz, ofUnits_of_onGrid h]
    exact ⟨rfl, congrArg some (signed_natAbs _)⟩

theorem Holds.add_of_onGrid {a b : Number} {z w : ℤ} (ha : a.Holds z) (hb : b.Holds w)
    (h : OnGrid ((z + w).natAbs * unitsPerOne)) : (a + b).Holds (z + w) := by
  have hsum : (z * unitsPerOne + w * unitsPerOne : ℤ) = (z + w) * unitsPerOne :=
    (Int.add_mul _ _ _).symm
  have hspec := position?_add ha.isFinite hb.isFinite ha.position hb.position
    (by rwa [hsum, Int.natAbs_mul, Int.natAbs_natCast])
  rw [hsum] at hspec
  exact ⟨hspec.1, hspec.2⟩

theorem Holds.add {a b : Number} {z w : ℤ} (ha : a.Holds z) (hb : b.Holds w)
    (h : (z + w).natAbs < Nat.pow 2 53) : (a + b).Holds (z + w) :=
  ha.add_of_onGrid hb (onGrid_of_lt h)

theorem Holds.add_one {a : Number} {z : ℤ} (h : a.Holds z) (hz : (z + 1).natAbs < Nat.pow 2 53) :
    (a + 1).Holds (z + 1) :=
  h.add holds_one hz

theorem Holds.sub_one {a : Number} {z : ℤ} (h : a.Holds z) (hz : (z - 1).natAbs < Nat.pow 2 53) :
    (a - 1).Holds (z - 1) :=
  h.add holds_one.neg hz

theorem place_finite {a : Number} {p : ℤ} (hf : a.isFinite = true) (hp : a.position? = some p) :
    a.place = (((p : ℝ) / (unitsPerOne : ℝ) : ℝ) : EReal) := by
  rw [place_eq hp]
  obtain ⟨negative, size, rfl⟩ := exists_eq_finite hf
  cases hp
  have hlt := size.onGrid.2
  have hcount := natAbs_signed negative size.units
  exact line_of_lt (by omega) (by omega)

theorem Holds.place_eq {a : Number} {z : ℤ} (h : a.Holds z) : a.place = ((z : ℝ) : EReal) := by
  have hpos : (unitsPerOne : ℝ) ≠ 0 := Nat.cast_ne_zero.2 unitsPerOne_pos.ne'
  rw [place_finite h.isFinite h.position, Int.cast_mul, Int.cast_natCast,
    mul_div_cancel_right₀ _ hpos]

section Whole
variable {a : Number} {p : ℤ} (hf : a.isFinite = true) (hp : a.position? = some p)
include hf hp

theorem int_le_place_iff (w : ℤ) : ((w : ℝ) : EReal) ≤ a.place ↔ w * unitsPerOne ≤ p := by
  have hpos : (0 : ℝ) < (unitsPerOne : ℝ) := Nat.cast_pos.2 unitsPerOne_pos
  rw [place_finite hf hp, EReal.coe_le_coe_iff, le_div_iff₀ hpos]
  exact_mod_cast Iff.rfl

theorem place_le_int_iff (w : ℤ) : a.place ≤ ((w : ℝ) : EReal) ↔ p ≤ w * unitsPerOne := by
  have hpos : (0 : ℝ) < (unitsPerOne : ℝ) := Nat.cast_pos.2 unitsPerOne_pos
  rw [place_finite hf hp, EReal.coe_le_coe_iff, div_le_iff₀ hpos]
  exact_mod_cast Iff.rfl

end Whole

theorem int_le_div_iff {n u : ℕ} (hu : 0 < u) (w : ℤ) : w ≤ (n / u : ℕ) ↔ w * u ≤ n := by
  rw [Int.natCast_div]
  exact Int.le_ediv_iff_mul_le (Int.natCast_pos.2 hu)

theorem ceilDiv_le_int_iff {n u : ℕ} (hu : 0 < u) (w : ℤ) :
    ((n + (u - 1)) / u : ℕ) ≤ w ↔ (n : ℤ) ≤ w * u := by
  have hcast : (0 : ℤ) < u := Int.natCast_pos.2 hu
  have hsub : ((u - 1 : ℕ) : ℤ) = u - 1 := by omega
  have hlt : ((n + (u - 1) : ℕ) : ℤ) / u < w + 1 ↔ ((n + (u - 1) : ℕ) : ℤ) < (w + 1) * u :=
    Int.ediv_lt_iff_lt_mul hcast
  rw [Int.natCast_div, ← Int.lt_add_one_iff, hlt, Int.add_mul, Int.natCast_add, hsub]
  omega

theorem ceilDiv_mul {c u : ℕ} (hu : 0 < u) : (u * c + (u - 1)) / u = c := by
  rw [Nat.mul_add_div hu, Nat.div_eq_of_lt (by omega), Nat.add_zero]

/-- The magnitude up to which numbers are rounded to integers here: one more step is still exact. -/
def wholeLimit : ℕ := Nat.pow 2 52

theorem wholeLimit_lt : wholeLimit + 1 < Nat.pow 2 53 := by decide

/-- A magnitude that is not whole is within the limit. -/
theorem dvd_or_le_of_onGrid {n : ℕ} (h : OnGrid n) :
    unitsPerOne ∣ n ∨ n ≤ wholeLimit * unitsPerOne := by
  obtain ⟨⟨m, k, hm, rfl⟩, -⟩ := h
  unfold unitsPerOne wholeLimit
  have hexp : 1074 = 1073 + 1 := rfl
  generalize 1074 = e at hexp ⊢
  generalize 1073 = e' at hexp
  rcases Nat.lt_or_ge k e with hk | hk
  · right
    subst hexp
    calc m * Nat.pow 2 k ≤ Nat.pow 2 53 * Nat.pow 2 e' :=
          Nat.mul_le_mul hm (Nat.pow_le_pow_right (by decide) (by omega))
      _ = Nat.pow 2 52 * Nat.pow 2 (e' + 1) := by
        rw [show Nat.pow 2 (e' + 1) = 2 * Nat.pow 2 e' from Nat.pow_succ', ← Nat.mul_assoc]
  · exact .inl (Nat.dvd_mul_left_of_dvd (Nat.pow_dvd_pow 2 hk) m)

theorem onGrid_floor {n : ℕ} (h : OnGrid n) : OnGrid (n / unitsPerOne * unitsPerOne) := by
  have hlimit := wholeLimit_lt
  rcases dvd_or_le_of_onGrid h with hdvd | hle
  · rwa [Nat.div_mul_cancel hdvd]
  · have hquotient : n / unitsPerOne ≤ wholeLimit :=
      Nat.div_le_of_le_mul (by rwa [Nat.mul_comm])
    exact onGrid_of_lt (by omega)

theorem onGrid_ceil {n : ℕ} (h : OnGrid n) :
    OnGrid ((n + (unitsPerOne - 1)) / unitsPerOne * unitsPerOne) := by
  have hlimit := wholeLimit_lt
  have hpos := unitsPerOne_pos
  rcases dvd_or_le_of_onGrid h with hdvd | hle
  · have hceil := ceilDiv_mul (c := n / unitsPerOne) hpos
    rw [Nat.mul_div_cancel' hdvd] at hceil
    rwa [hceil, Nat.div_mul_cancel hdvd]
  · have hquotient := (ceilDiv_le_int_iff hpos wholeLimit).2 (by exact_mod_cast hle)
    exact onGrid_of_lt (by omega)

theorem exists_floor {a : Number} {p : ℤ} (hf : a.isFinite = true) (hp : a.position? = some p) :
    ∃ z, a.floor.Holds z ∧ ∀ w : ℤ, w ≤ z ↔ w * unitsPerOne ≤ p := by
  have hpos := unitsPerOne_pos
  obtain ⟨negative, size, rfl⟩ := exists_eq_finite hf
  cases hp
  cases negative with
  | false => exact ⟨_, holds_of_onGrid (onGrid_floor size.onGrid) false, int_le_div_iff hpos⟩
  | true =>
    refine ⟨_, holds_of_onGrid (onGrid_ceil size.onGrid) true, fun w => ?_⟩
    have hiff := @ceilDiv_le_int_iff size.units _ hpos (-w)
    rw [Int.neg_mul] at hiff
    simp only [signed, if_true]
    omega

theorem exists_ceil {a : Number} {p : ℤ} (hf : a.isFinite = true) (hp : a.position? = some p) :
    ∃ z, a.ceil.Holds z ∧ ∀ w : ℤ, z ≤ w ↔ p ≤ w * unitsPerOne := by
  obtain ⟨z, hz, hfloor⟩ := exists_floor (isFinite_neg.trans hf) (position?_neg hp)
  refine ⟨-z, hz.neg, fun w => ?_⟩
  have hw := hfloor (-w)
  rw [Int.neg_mul] at hw
  omega

theorem exists_holds {a : Number} (h : a.isIntegral = true) : ∃ z, a.Holds z := by
  cases a with
  | nan => cases h
  | infinite negative => cases h
  | finite negative size =>
    have hmod : size.units % unitsPerOne = 0 := by simpa [isIntegral] using h
    refine ⟨signed negative (size.units / unitsPerOne), rfl, ?_⟩
    rw [← signed_mul, Nat.div_mul_cancel (Nat.dvd_of_mod_eq_zero hmod)]
    rfl

theorem Holds.isIntegral {a : Number} {z : ℤ} (h : a.Holds z) : a.isIntegral = true := by
  obtain ⟨hf, hp⟩ := h
  obtain ⟨negative, size, rfl⟩ := exists_eq_finite hf
  have hcount := congrArg Int.natAbs (Option.some.inj hp)
  rw [natAbs_signed, Int.natAbs_mul, Int.natAbs_natCast] at hcount
  change (size.units % unitsPerOne == 0) = true
  rw [hcount, Nat.mul_mod_left]
  rfl

theorem isFinite_of_place {a : Number} {x : ℝ} (ha : a.isNan = false) (h : a.place = x) :
    a.isFinite = true := by
  cases a with
  | nan => cases ha
  | infinite negative =>
    cases negative
    · exact absurd (h.symm.trans line_overflow) (EReal.coe_ne_top _)
    · exact absurd (h.symm.trans line_neg_overflow) (EReal.coe_ne_bot _)
  | finite negative size => rfl

/-- A number whose place is that of an integer holds it. -/
theorem holds_of_place {a : Number} {z : ℤ} (ha : a.isNan = false)
    (h : a.place = ((z : ℝ) : EReal)) : a.Holds z := by
  obtain ⟨p, hp⟩ := exists_position ha
  have hf := isFinite_of_place ha h
  refine ⟨hf, hp.trans (congrArg some (le_antisymm ?_ ?_))⟩
  · rw [← place_le_int_iff hf hp, h]
  · rw [← int_le_place_iff hf hp, h]

theorem infinite_add {negative : Bool} {b : Number} (h : b.isFinite = true) :
    Number.infinite negative + b = .infinite negative := by
  obtain ⟨negative, size, rfl⟩ := exists_eq_finite h
  rfl

end Exact

end TypedFlow.Number
