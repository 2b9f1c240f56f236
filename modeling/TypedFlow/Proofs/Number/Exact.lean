import TypedFlow.Proofs.Number.Place

/-!
# Exact sums and products

A sum or product of finite numbers is exact if it has the place that it should, so that it was
neither rounded nor overflowed. Infinite factors and summands need no care as long as no infinity
meets the opposite one or a zero. Sums that are rounded still do not pass any number.
-/
namespace TypedFlow.Number

/-- The sum of two finite numbers is neither rounded nor overflows. -/
def ExactSum (a b : Number) : Prop :=
  a.isFinite = true → b.isFinite = true → (a + b).place = a.place + b.place

/-- The product of two finite numbers is neither rounded nor overflows. -/
def ExactProduct (a b : Number) : Prop :=
  a.isFinite = true → b.isFinite = true → (a * b).place = a.place * b.place

section Defined
variable {a b : Number}

theorem isNan_ofRatio (negative : Bool) (n d : ℕ) : (ofRatio negative n d).isNan = false := by
  unfold ofRatio
  split
  · split <;> rfl
  · split <;> rfl

theorem isNan_add (ha : a.isFinite = true) (hb : b.isFinite = true) : (a + b).isNan = false := by
  obtain ⟨p, x, rfl⟩ := exists_eq_finite ha
  obtain ⟨q, y, rfl⟩ := exists_eq_finite hb
  rw [finite_add_finite]
  split
  · exact isNan_ofRatio _ _ _
  · exact isNan_ofRatio _ _ _

theorem finite_mul_finite (p q : Bool) (x y : Magnitude) :
    finite p x * finite q y = ofRatio (p != q) (x.units * y.units) unitsPerOne := by
  change mul (finite p x) (finite q y) = _
  simp only [mul]

theorem isNan_mul (ha : a.isFinite = true) (hb : b.isFinite = true) : (a * b).isNan = false := by
  obtain ⟨p, x, rfl⟩ := exists_eq_finite ha
  obtain ⟨q, y, rfl⟩ := exists_eq_finite hb
  rw [finite_mul_finite]
  exact isNan_ofRatio _ _ _

theorem place_zero : (0 : Number).place = 0 := by
  rw [holds_zero.place_eq, Int.cast_zero, EReal.coe_zero]

theorem place_infinite (negative : Bool) :
    (infinite negative).place = if negative then ⊥ else ⊤ := by
  cases negative
  · exact line_overflow
  · exact line_neg_overflow

theorem place_of_finite (negative : Bool) (x : Magnitude) :
    (finite negative x).place =
      (((signed negative x.units : ℝ) / (unitsPerOne : ℝ) : ℝ) : EReal) :=
  place_finite rfl rfl

theorem place_neg (ha : a.isNan = false) : (-a).place = -a.place := by
  cases a with
  | nan => cases ha
  | infinite negative =>
    change (infinite (!negative)).place = _
    rw [place_infinite, place_infinite]
    cases negative <;> simp
  | finite negative x =>
    change (finite (!negative) x).place = _
    rw [place_of_finite, place_of_finite, signed_not, Int.cast_neg, neg_div, EReal.coe_neg]

theorem isNan_neg : (-a).isNan = a.isNan := by
  cases a <;> rfl

/-- An infinity may meet anything but its opposite. -/
theorem place_add (ha : a.isNan = false) (hb : b.isNan = false) (h : ExactSum a b)
    (hl : a.place ≠ ⊤ ∨ b.place ≠ ⊥) (hu : a.place ≠ ⊥ ∨ b.place ≠ ⊤) :
    (a + b).isNan = false ∧ (a + b).place = a.place + b.place := by
  cases a with
  | nan => cases ha
  | infinite s =>
    cases b with
    | nan => cases hb
    | infinite t =>
      rw [place_infinite, place_infinite] at hl hu ⊢
      change (if s == t then infinite s else nan).isNan = false ∧
        (if s == t then infinite s else nan).place = _
      cases s <;> cases t <;> simp_all [place_infinite, isNan]
    | finite t y =>
      rw [place_infinite, place_of_finite]
      refine ⟨rfl, (place_infinite s).trans ?_⟩
      cases s
      · exact (EReal.top_add_coe _).symm
      · exact (EReal.bot_add _).symm
  | finite s x =>
    cases b with
    | nan => cases hb
    | infinite t =>
      rw [place_infinite, place_of_finite]
      refine ⟨rfl, (place_infinite t).trans ?_⟩
      cases t
      · exact (EReal.coe_add_top _).symm
      · exact (EReal.add_bot _).symm
    | finite t y => exact ⟨isNan_add rfl rfl, h rfl rfl⟩

theorem place_eq_zero (hf : a.isFinite = true) (hp : a.position? = some 0) : a.place = 0 := by
  rw [place_finite hf hp, Int.cast_zero, zero_div, EReal.coe_zero]

theorem units_ne_zero {s : Bool} {x : Magnitude} (h : (finite s x).place ≠ 0) : x.units ≠ 0 := by
  intro hzero
  apply h
  have hposition : (finite s x).position? = some 0 := by
    change some (signed s x.units) = some 0
    rw [hzero, signed_zero]
  exact place_eq_zero rfl hposition

theorem place_mul_infinite {s t : Bool} {y : Magnitude} (hy : (finite t y).place ≠ 0) :
    (infinite (s != t)).place = (infinite s).place * (finite t y).place := by
  have hpos : (0 : ℝ) < (unitsPerOne : ℝ) := Nat.cast_pos.2 unitsPerOne_pos
  have hunits : (0 : ℝ) < (y.units : ℝ) := Nat.cast_pos.2 (Nat.pos_of_ne_zero (units_ne_zero hy))
  have hplace := place_of_finite t y
  cases t with
  | false =>
    have hlt : 0 < (finite false y).place := by
      have hsigned : (signed false y.units : ℝ) = y.units := by simp [signed]
      rw [hplace, hsigned, EReal.coe_pos]
      exact div_pos hunits hpos
    rw [Bool.bne_false, place_infinite]
    cases s
    · exact (EReal.top_mul_of_pos hlt).symm
    · exact (EReal.bot_mul_of_pos hlt).symm
  | true =>
    have hlt : (finite true y).place < 0 := by
      have hsigned : (signed true y.units : ℝ) = -y.units := by simp [signed]
      rw [hplace, hsigned, EReal.coe_neg']
      exact div_neg_of_neg_of_pos (neg_neg_of_pos hunits) hpos
    rw [Bool.bne_true, place_infinite, place_infinite]
    cases s
    · exact (EReal.top_mul_of_neg hlt).symm
    · exact (EReal.bot_mul_of_neg hlt).symm

/-- An infinity may meet anything but zero. -/
theorem place_mul (ha : a.isNan = false) (hb : b.isNan = false) (h : ExactProduct a b)
    (ha' : a.place ≠ 0) (hb' : b.place ≠ 0) :
    (a * b).isNan = false ∧ (a * b).place = a.place * b.place := by
  cases a with
  | nan => cases ha
  | infinite s =>
    cases b with
    | nan => cases hb
    | infinite t =>
      refine ⟨rfl, (place_infinite (s != t)).trans ?_⟩
      rw [place_infinite, place_infinite]
      cases s <;> cases t <;> simp
    | finite t y =>
      have hmul : infinite s * finite t y = infinite (s != t) := if_neg (units_ne_zero hb')
      rw [hmul]
      exact ⟨rfl, place_mul_infinite hb'⟩
  | finite s x =>
    cases b with
    | nan => cases hb
    | infinite t =>
      have hmul : finite s x * infinite t = infinite (t != s) := if_neg (units_ne_zero ha')
      rw [hmul, EReal.mul_comm]
      exact ⟨rfl, place_mul_infinite ha'⟩
    | finite t y => exact ⟨isNan_mul rfl rfl, h rfl rfl⟩

end Defined

section Steps
variable {a b c : Number} {z w : ℤ}

theorem ExactSum.holds (h : ExactSum a b) (ha : a.Holds z) (hb : b.Holds w) :
    (a + b).Holds (z + w) := by
  apply holds_of_place (isNan_add ha.isFinite hb.isFinite)
  rw [h ha.isFinite hb.isFinite, ha.place_eq, hb.place_eq, Int.cast_add, EReal.coe_add]

theorem ExactSum.add_one (h : ExactSum a 1) (ha : a.Holds z) : (a + 1).Holds (z + 1) :=
  h.holds ha holds_one

theorem ExactSum.sub_one (h : ExactSum a (-1)) (ha : a.Holds z) : (a - 1).Holds (z - 1) :=
  h.holds ha holds_one.neg

theorem Holds.exactSum (ha : a.Holds z) (hb : b.Holds w) (h : (z + w).natAbs < Nat.pow 2 53) :
    ExactSum a b := by
  intro _ _
  rw [(ha.add hb h).place_eq, ha.place_eq, hb.place_eq, Int.cast_add, EReal.coe_add]

theorem isIntegral_ofUnits {negative : Bool} {n : Nat} (h : unitsPerOne ∣ n)
    (hf : (ofUnits negative n).isFinite = true) : (ofUnits negative n).isIntegral = true := by
  have hdvd : unitsPerOne ∣ nearestUnits n 1 := by
    unfold unitsPerOne at h ⊢
    generalize 1074 = k at h ⊢
    exact dvd_nearestUnits h
  simp only [ofUnits, ofRatio] at hf ⊢
  rw [dif_pos Nat.one_pos] at hf ⊢
  split at hf
  · rename_i hlt
    rw [dif_pos hlt]
    exact beq_iff_eq.2 (Nat.mod_eq_zero_of_dvd hdvd)
  · cases hf

/-- Rounding a sum of integers gives an integer again. -/
theorem Holds.exists_add (ha : a.Holds z) (hb : b.Holds w) (hf : (a + b).isFinite = true) :
    ∃ v, (a + b).Holds v := by
  apply exists_holds
  obtain ⟨hfa, hpa⟩ := ha
  obtain ⟨hfb, hpb⟩ := hb
  obtain ⟨negative, x, rfl⟩ := exists_eq_finite hfa
  obtain ⟨negative', y, rfl⟩ := exists_eq_finite hfb
  have hsum : signed negative x.units + signed negative' y.units = (z + w) * unitsPerOne :=
    (congrArg₂ (· + ·) (Option.some.inj hpa) (Option.some.inj hpb)).trans
      (Int.add_mul _ _ _).symm
  rw [finite_add_finite, hsum] at hf ⊢
  have hdvd : unitsPerOne ∣ ((z + w) * unitsPerOne : ℤ).natAbs := by
    rw [Int.natAbs_mul, Int.natAbs_natCast]
    exact Nat.dvd_mul_left _ _
  split at hf
  · rename_i hzero
    rw [if_pos hzero]
    exact isIntegral_ofUnits (Nat.dvd_zero _) hf
  · rename_i hne
    rw [if_neg hne]
    exact isIntegral_ofUnits hdvd hf

theorem isFinite_of_add (hf : (a + b).isFinite = true) : a.isFinite = true ∧ b.isFinite = true := by
  cases a with
  | nan => cases hf
  | infinite s =>
    cases b with
    | nan => cases hf
    | infinite t =>
      change (if s == t then infinite s else nan).isFinite = true at hf
      split at hf <;> cases hf
    | finite t y => cases hf
  | finite s x =>
    cases b with
    | nan => cases hf
    | infinite t => cases hf
    | finite t y => exact ⟨rfl, rfl⟩

theorem isFinite_of_ceil (hf : a.ceil.isFinite = true) : a.isFinite = true := by
  cases a with
  | nan => cases hf
  | infinite s => cases hf
  | finite s x => rfl

theorem isFinite_of_floor (hf : a.floor.isFinite = true) : a.isFinite = true := by
  cases a with
  | nan => cases hf
  | infinite s => cases hf
  | finite s x => rfl

theorem position?_ofUnits (negative : Bool) (n : ℕ) : (ofUnits negative n).position? =
    some (signed negative (min (nearestUnits n 1) overflowUnits)) := by
  simp only [ofUnits, ofRatio]
  rw [dif_pos Nat.one_pos]
  split
  · rename_i hlt
    rw [min_eq_left hlt.le]
    rfl
  · rename_i hge
    rw [min_eq_right (not_lt.1 hge)]
    rfl

theorem onGrid_natAbs {r : ℤ} (hc : c.isFinite = true) (h : c.position? = some r) :
    OnGrid r.natAbs := by
  obtain ⟨negative, x, rfl⟩ := exists_eq_finite hc
  cases h
  rw [natAbs_signed]
  exact x.onGrid

theorem le_position_add {p q r : ℤ} (ha : a.isFinite = true) (hb : b.isFinite = true)
    (hc : c.isFinite = true) (hp : a.position? = some p) (hq : b.position? = some q)
    (hr : c.position? = some r) (h : r ≤ p + q) :
    ∃ s, (a + b).position? = some s ∧ r ≤ s := by
  have hgrid := onGrid_natAbs hc hr
  have hlt := hgrid.2
  obtain ⟨negative, x, rfl⟩ := exists_eq_finite ha
  obtain ⟨negative', y, rfl⟩ := exists_eq_finite hb
  have hsum : signed negative x.units + signed negative' y.units = p + q :=
    congrArg₂ (· + ·) (Option.some.inj hp) (Option.some.inj hq)
  rw [finite_add_finite, hsum]
  generalize p + q = s at h
  rcases lt_trichotomy s 0 with hs | rfl | hs
  · have hnearest := nearestUnits_le hgrid (n := s.natAbs) (by omega)
    rw [if_neg hs.ne, position?_ofUnits]
    refine ⟨_, rfl, ?_⟩
    simp only [signed, hs, decide_true, if_true]
    omega
  · rw [if_pos rfl, ofUnits_of_onGrid onGrid_zero]
    exact ⟨_, rfl, h.trans (signed_zero _).ge⟩
  · have hnearest : r.natAbs ≤ nearestUnits s.natAbs 1 ∨ r ≤ 0 := by
      by_cases hneg : r ≤ 0
      · exact .inr hneg
      · exact .inl (le_nearestUnits hgrid (by omega))
    rw [if_neg hs.ne', position?_ofUnits]
    refine ⟨_, rfl, ?_⟩
    simp only [signed, not_lt.2 hs.le, decide_false, Bool.false_eq_true, if_false]
    omega

/-- Rounding a sum does not take it below any number that it is not below. -/
theorem le_place_add (ha : a.isFinite = true) (hb : b.isFinite = true) (hc : c.isNan = false)
    (h : c.place ≤ a.place + b.place) : c.place ≤ (a + b).place := by
  obtain ⟨p, hp⟩ := exists_position (isNan_of_isFinite ha)
  obtain ⟨q, hq⟩ := exists_position (isNan_of_isFinite hb)
  rw [place_finite ha hp, place_finite hb hq, ← EReal.coe_add] at h
  cases c with
  | nan => cases hc
  | infinite negative =>
    cases negative with
    | false => exact absurd (h.trans_lt (EReal.coe_lt_top _)) (place_infinite false ▸ lt_irrefl _)
    | true => exact (place_infinite true).le.trans bot_le
  | finite negative x =>
    have hpos : (0 : ℝ) < (unitsPerOne : ℝ) := Nat.cast_pos.2 unitsPerOne_pos
    rw [place_of_finite, EReal.coe_le_coe_iff, ← add_div, div_le_div_iff_of_pos_right hpos] at h
    obtain ⟨s, hs, hle⟩ := le_position_add (c := .finite negative x) ha hb rfl hp hq rfl
      (by exact_mod_cast h)
    rcases hle.eq_or_lt with rfl | hlt
    · rw [place_eq hs]
      exact le_rfl
    · rw [place_eq hs]
      exact (line_lt (position?_bounds (a := .finite negative x) rfl).1 (position?_bounds hs).2
        hlt).le

theorem neg_ofUnits (negative : Bool) (n : ℕ) : -ofUnits negative n = ofUnits (!negative) n := by
  simp only [ofUnits, ofRatio]
  rw [dif_pos Nat.one_pos, dif_pos Nat.one_pos]
  split <;> rfl

theorem place_ofUnits_zero (negative : Bool) : (ofUnits negative 0).place = 0 := by
  rw [ofUnits_of_onGrid onGrid_zero, place_of_finite, signed_zero, Int.cast_zero, zero_div,
    EReal.coe_zero]

theorem place_neg_add_neg (ha : a.isFinite = true) (hb : b.isFinite = true) :
    (-a + -b).place = -(a + b).place := by
  rw [← place_neg (isNan_add ha hb)]
  obtain ⟨p, x, rfl⟩ := exists_eq_finite ha
  obtain ⟨q, y, rfl⟩ := exists_eq_finite hb
  change (finite (!p) x + finite (!q) y).place = _
  rw [finite_add_finite, finite_add_finite, signed_not, signed_not, ← neg_add]
  generalize signed p x.units + signed q y.units = s
  by_cases hs : s = 0
  · rw [if_pos (neg_eq_zero.2 hs), if_pos hs, neg_ofUnits, place_ofUnits_zero, place_ofUnits_zero]
  · have hsign : decide (-s < 0) = !decide (s < 0) := by
      rw [← decide_not, decide_eq_decide]
      omega
    rw [if_neg (neg_ne_zero.2 hs), if_neg hs, neg_ofUnits, hsign, Int.natAbs_neg]

/-- Nor does it take it above any number that it is not above. -/
theorem place_add_le (ha : a.isFinite = true) (hb : b.isFinite = true) (hc : c.isNan = false)
    (h : a.place + b.place ≤ c.place) : (a + b).place ≤ c.place := by
  obtain ⟨p, hp⟩ := exists_position (isNan_of_isFinite ha)
  obtain ⟨q, hq⟩ := exists_position (isNan_of_isFinite hb)
  have hsum : -a.place + -b.place = -(a.place + b.place) := by
    rw [place_finite ha hp, place_finite hb hq]
    norm_cast
    rw [neg_add]
  have hneg : (-c).place ≤ (-a + -b).place := by
    apply le_place_add (isFinite_neg.trans ha) (isFinite_neg.trans hb) (isNan_neg.trans hc)
    rw [place_neg (isNan_of_isFinite ha), place_neg (isNan_of_isFinite hb), place_neg hc, hsum]
    exact EReal.neg_le_neg_iff.2 h
  rw [place_neg hc, place_neg_add_neg ha hb] at hneg
  exact EReal.neg_le_neg_iff.1 hneg

end Steps

section Signs
variable {a b : Number}

/-- The sign of a number other than the negative zero is that of its position. -/
theorem isNegative_eq (h : a ≠ -zero) {p : ℤ} (hp : a.position? = some p) :
    a.isNegative = decide (p < 0) := by
  have hpos := overflowUnits_pos
  cases a with
  | nan => cases hp
  | infinite negative =>
    cases hp
    cases negative
    · simp only [isNegative, signed, Bool.false_eq_true, if_false, false_eq_decide_iff]
      omega
    · simp only [isNegative, signed, if_true, true_eq_decide_iff]
      omega
  | finite negative size =>
    cases hp
    cases negative
    · simp [isNegative, signed]
    · have hne : size.units ≠ 0 := by
        intro hzero
        apply h
        obtain ⟨units, onGrid⟩ := size
        cases hzero
        rfl
      simp only [isNegative, signed, if_true, true_eq_decide_iff]
      omega

theorem zero_ne_neg_zero : (0 : Number) ≠ -zero := by
  have hsign : ∀ n, (ofNat n).isNegative = false := by
    intro n
    simp only [ofNat, ofUnits]
    rw [isNegative_ofRatio]
  intro heq
  have hzero := hsign 0
  rw [show ofNat 0 = -zero from heq] at hzero
  cases hzero

theorem onGrid_one : OnGrid 1 := by
  refine ⟨⟨1, 0, by decide, rfl⟩, ?_⟩
  unfold overflowUnits
  have he : 2098 ≠ 0 := by decide
  generalize 2098 = e at he ⊢
  exact Nat.one_lt_two_pow he

/-- Rounding keeps a sum from becoming zero, and numbers that cancel do not have the same sign. -/
theorem add_ne_neg_zero (ha : a ≠ -zero) (hb : b ≠ -zero) : a + b ≠ -zero := by
  intro hsum
  obtain ⟨hfa, hfb⟩ := isFinite_of_add (a := a) (b := b) (hsum ▸ rfl)
  obtain ⟨negative, x, rfl⟩ := exists_eq_finite hfa
  obtain ⟨negative', y, rfl⟩ := exists_eq_finite hfb
  have hx : negative = decide (signed negative x.units < 0) := isNegative_eq ha rfl
  have hy : negative' = decide (signed negative' y.units < 0) := isNegative_eq hb rfl
  rw [finite_add_finite] at hsum
  generalize hs : signed negative x.units + signed negative' y.units = s at hsum
  split at hsum
  · have hsign : (negative && negative') = true := by
      rw [← isNegative_ofRatio (negative && negative') 0 1]
      exact congrArg isNegative hsum
    obtain ⟨rfl, rfl⟩ := Bool.and_eq_true_iff.1 hsign
    simp only [true_eq_decide_iff] at hx hy
    omega
  · have hposition := (congrArg position? hsum).trans (show (-zero).position? = some 0 from rfl)
    rw [position?_ofUnits] at hposition
    have hnearest := le_nearestUnits onGrid_one (n := s.natAbs) (by omega)
    have hoverflow := onGrid_one.2
    have hcount := Option.some.inj hposition
    simp only [signed] at hcount
    split at hcount <;> omega

theorem place_neg_zero : (-zero).place = 0 := place_eq_zero rfl rfl

/-- Only rounding makes a product of numbers other than zero the negative zero. -/
theorem mul_ne_neg_zero (ha : a.isNan = false) (hb : b.isNan = false) (h : ExactProduct a b)
    (ha' : a.place ≠ 0) (hb' : b.place ≠ 0) : a * b ≠ -zero := by
  intro heq
  have hplace := (place_mul ha hb h ha' hb').2
  rw [heq, place_neg_zero] at hplace
  exact mul_ne_zero ha' hb' hplace.symm

end Signs

section Products
variable {a b : Number} {z w : ℤ}

theorem isFinite_of_mul (hf : (a * b).isFinite = true) : a.isFinite = true ∧ b.isFinite = true := by
  cases a with
  | nan => cases hf
  | infinite s =>
    cases b with
    | nan => cases hf
    | infinite t => cases hf
    | finite t y =>
      change (if y.units = 0 then nan else infinite (s != t)).isFinite = true at hf
      split at hf <;> cases hf
  | finite s x =>
    cases b with
    | nan => cases hf
    | infinite t =>
      change (if x.units = 0 then nan else infinite (t != s)).isFinite = true at hf
      split at hf <;> cases hf
    | finite t y => exact ⟨rfl, rfl⟩

theorem Holds.units_eq {negative : Bool} {x : Magnitude} (h : (finite negative x).Holds z) :
    x.units = z.natAbs * unitsPerOne ∧ signed negative z.natAbs = z := by
  have hcount : signed negative x.units = z * unitsPerOne := Option.some.inj h.position
  have hsize : x.units = (z * unitsPerOne).natAbs := by
    rw [← hcount, natAbs_signed]
  rw [Int.natAbs_mul, Int.natAbs_natCast] at hsize
  refine ⟨hsize, ?_⟩
  have hpos : (unitsPerOne : ℤ) ≠ 0 := by exact_mod_cast unitsPerOne_pos.ne'
  rw [hsize, signed_mul] at hcount
  exact Int.eq_of_mul_eq_mul_right hpos hcount

theorem Holds.mul (ha : a.Holds z) (hb : b.Holds w) (h : (z * w).natAbs < Nat.pow 2 53) :
    (a * b).Holds (z * w) := by
  obtain ⟨p, x, rfl⟩ := exists_eq_finite ha.isFinite
  obtain ⟨q, y, rfl⟩ := exists_eq_finite hb.isFinite
  obtain ⟨hx, hp⟩ := ha.units_eq
  obtain ⟨hy, hq⟩ := hb.units_eq
  have hunits : x.units * y.units = (z * w).natAbs * unitsPerOne * unitsPerOne := by
    rw [hx, hy, Int.natAbs_mul]
    ring
  have hnearest : nearestUnits (x.units * y.units) unitsPerOne =
      (z * w).natAbs * unitsPerOne := by
    have hpos := unitsPerOne_pos
    have hgrid := onGrid_of_lt h
    rw [hunits]
    generalize (z * w).natAbs * unitsPerOne = u at hgrid ⊢
    generalize unitsPerOne = v at hpos ⊢
    exact nearestUnits_of_close hgrid (Nat.le_refl _) (by omega)
  have hsigned : signed (p != q) (z * w).natAbs = z * w := by
    rw [Int.natAbs_mul, ← hp, ← hq]
    simp only [signed]
    cases p <;> cases q <;> simp
  rw [finite_mul_finite, ofRatio_of_nearest unitsPerOne_pos (x := ⟨_, onGrid_of_lt h⟩) hnearest]
  refine ⟨rfl, ?_⟩
  change some (signed (p != q) ((z * w).natAbs * unitsPerOne)) = _
  rw [signed_mul, hsigned]

end Products

end TypedFlow.Number
