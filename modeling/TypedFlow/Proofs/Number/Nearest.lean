import TypedFlow.Number.Text

/-!
# Decimals that read back

A fraction that lies less than half a least step below a number rounds to that number. The decimals
of the finest place are finer than that, so a magnitude is read back from its decimal with what is
left over dropped, and from its shortest decimal all the more.
-/
namespace TypedFlow.Number

theorem roundDiv_of_close {n d c : Nat} (hle : n ≤ c * d) (hclose : 2 * (c * d - n) < d) :
    roundDiv n d = c := by
  have hpos : 0 < d := by omega
  rcases Nat.eq_or_lt_of_le hle with rfl | hlt
  · unfold roundDiv
    dsimp only
    rw [Nat.mul_mod_left, Nat.mul_div_left c hpos, if_pos (by omega)]
  · cases c with
    | zero => omega
    | succ q =>
      have hsucc : (q + 1) * d = q * d + d := Nat.succ_mul q d
      obtain ⟨r, rfl⟩ : ∃ r, n = r + q * d := ⟨n - q * d, by omega⟩
      have hr : r < d := by omega
      unfold roundDiv
      dsimp only
      rw [Nat.add_mul_mod_self_right, Nat.add_mul_div_right r q hpos, Nat.mod_eq_of_lt hr,
        Nat.div_eq_of_lt hr, if_neg (by omega), if_pos (by omega), Nat.zero_add]

theorem log2_mono {m n : Nat} (h : m ≤ n) : m.log2 ≤ n.log2 := by
  rcases Nat.eq_zero_or_pos m with rfl | hm
  · simp
  · exact (Nat.le_log2 (by omega)).2 (Nat.le_trans (Nat.log2_self_le (by omega)) h)

/-- What binary64 can hold is a multiple of every step that is used at or below it. -/
theorem pow_excessBits_dvd {u q : Nat} (hu : OnGrid u) (hq : q ≤ u) :
    Nat.pow 2 (excessBits q) ∣ u := by
  obtain ⟨⟨m, k, hm, rfl⟩, -⟩ := hu
  rcases Nat.eq_zero_or_pos m with rfl | hpos
  · rw [Nat.zero_mul]
    exact Nat.dvd_zero _
  have hlog := log2_mono hq
  rcases Nat.eq_or_lt_of_le hm with rfl | hlt
  · rw [show Nat.pow 2 53 * Nat.pow 2 k = 2 ^ (53 + k) from (Nat.pow_add 2 53 k).symm] at hlog ⊢
    rw [Nat.log2_two_pow] at hlog
    exact Nat.pow_dvd_pow 2 (by unfold excessBits; omega)
  · have hbelow : m * Nat.pow 2 k < 2 ^ (53 + k) := by
      rw [Nat.pow_add]
      exact Nat.mul_lt_mul_of_pos_right hlt (Nat.two_pow_pos k)
    have hne : m * Nat.pow 2 k ≠ 0 := Nat.ne_of_gt (Nat.mul_pos hpos (Nat.two_pow_pos k))
    have hlog' := (Nat.log2_lt hne).2 hbelow
    exact Nat.dvd_mul_left_of_dvd (Nat.pow_dvd_pow 2 (by unfold excessBits; omega)) m

/-- A fraction less than half a least step below a magnitude rounds to it. -/
theorem nearestUnits_of_close {n d u : Nat} (hu : OnGrid u) (hle : n ≤ u * d)
    (hclose : 2 * (u * d - n) < d) : nearestUnits n d = u := by
  have hdvd := pow_excessBits_dvd hu (Nat.div_le_of_le_mul (Nat.mul_comm u d ▸ hle))
  obtain ⟨c, hc⟩ := hdvd
  have hstep : 0 < Nat.pow 2 (excessBits (n / d)) := Nat.two_pow_pos _
  unfold nearestUnits
  dsimp only
  generalize Nat.pow 2 (excessBits (n / d)) = step at hc hstep
  have hcd : c * (d * step) = u * d := by rw [hc]; ac_rfl
  have hd : d ≤ d * step := Nat.le_mul_of_pos_right d hstep
  rw [roundDiv_of_close (hcd.symm ▸ hle) (by omega), hc, Nat.mul_comm]

section Between
variable {n u : Nat} (hu : OnGrid u)

theorem le_roundDiv {n d m : Nat} (hd : 0 < d) (h : m * d ≤ n) : m ≤ roundDiv n d := by
  have hq : m ≤ n / d := (Nat.le_div_iff_mul_le hd).2 h
  unfold roundDiv
  dsimp only
  split
  · exact hq
  · split <;> omega

include hu

/-- Rounding does not pass a magnitude that can be held, neither downwards nor upwards. -/
theorem le_nearestUnits (h : u ≤ n) : u ≤ nearestUnits n 1 := by
  rcases Nat.eq_zero_or_pos n with rfl | hpos
  · omega
  have hstep : 0 < Nat.pow 2 (excessBits n) := Nat.two_pow_pos _
  have hmul : ∀ m, Nat.pow 2 (excessBits n) ∣ m → m ≤ n → m ≤ nearestUnits n 1 := by
    intro m hdvd hle
    obtain ⟨c, rfl⟩ := hdvd
    unfold nearestUnits
    dsimp only
    rw [Nat.div_one, Nat.one_mul, Nat.mul_comm]
    exact Nat.mul_le_mul_right _ (le_roundDiv hstep (by rwa [Nat.mul_comm]))
  -- the power of two below `n` is kept, and what lies above that is a multiple of the step
  have hbelow : 2 ^ n.log2 ≤ n := Nat.log2_self_le (by omega)
  rcases Nat.le_total u (2 ^ n.log2) with hle | hge
  · refine Nat.le_trans hle (hmul _ (Nat.pow_dvd_pow 2 ?_) hbelow)
    unfold excessBits
    omega
  · have hdvd := pow_excessBits_dvd hu hge
    rw [show excessBits (2 ^ n.log2) = excessBits n by rw [excessBits, Nat.log2_two_pow, excessBits]]
      at hdvd
    exact hmul u hdvd h

theorem nearestUnits_le (h : n ≤ u) : nearestUnits n 1 ≤ u := by
  have hdvd := pow_excessBits_dvd hu h
  have hstep : 0 < Nat.pow 2 (excessBits n) := Nat.two_pow_pos _
  obtain ⟨c, hc⟩ := hdvd
  unfold nearestUnits
  dsimp only
  rw [Nat.div_one, Nat.one_mul]
  generalize Nat.pow 2 (excessBits n) = step at hc hstep ⊢
  rw [hc, Nat.mul_comm step]
  exact Nat.mul_le_mul_right _ (roundDiv_le hstep (by rwa [Nat.mul_comm, ← hc]))

end Between

theorem dvd_nearestUnits {n k : Nat} (h : Nat.pow 2 k ∣ n) : Nat.pow 2 k ∣ nearestUnits n 1 := by
  have hstep : 0 < Nat.pow 2 (excessBits n) := Nat.two_pow_pos _
  unfold nearestUnits
  dsimp only
  rw [Nat.div_one, Nat.one_mul]
  rcases Nat.le_total k (excessBits n) with hk | hk
  · exact Nat.dvd_mul_left_of_dvd (Nat.pow_dvd_pow 2 hk) _
  · -- the step divides the count, which is then not rounded
    have hdvd : Nat.pow 2 (excessBits n) ∣ n := Nat.dvd_trans (Nat.pow_dvd_pow 2 hk) h
    obtain ⟨c, hc⟩ := hdvd
    have hexact : roundDiv n (Nat.pow 2 (excessBits n)) * Nat.pow 2 (excessBits n) = n := by
      generalize Nat.pow 2 (excessBits n) = step at hc hstep
      rw [Nat.mul_comm] at hc
      rw [roundDiv_of_close (Nat.le_of_eq hc) (by omega), hc]
    rwa [hexact]

theorem roundDiv_scaled {n d c : Nat} (hc : 0 < c) : roundDiv (n * c) (d * c) = roundDiv n d := by
  unfold roundDiv
  dsimp only
  rw [Nat.mul_div_mul_right _ _ hc, Nat.mul_mod_mul_right, ← Nat.mul_assoc]
  simp only [Nat.mul_lt_mul_right hc]

theorem nearestUnits_scaled {n d c : Nat} (hc : 0 < c) :
    nearestUnits (n * c) (d * c) = nearestUnits n d := by
  unfold nearestUnits
  dsimp only
  rw [Nat.mul_div_mul_right _ _ hc, Nat.mul_right_comm, roundDiv_scaled hc]

theorem ofRatio_congr {n d n' d' : Nat} {negative : Bool} (hd : 0 < d) (hd' : 0 < d')
    (h : nearestUnits n d = nearestUnits n' d') : ofRatio negative n d = ofRatio negative n' d' := by
  simp only [ofRatio, dif_pos hd, dif_pos hd', h]

theorem ofRatio_of_nearest {n d : Nat} {negative : Bool} {x : Magnitude} (hd : 0 < d)
    (h : nearestUnits n d = x.units) : ofRatio negative n d = .finite negative x := by
  have hlt : nearestUnits n d < overflowUnits := h ▸ x.onGrid.2
  obtain ⟨units, onGrid⟩ := x
  simp only [ofRatio, dif_pos hd, dif_pos hlt]
  simp only at h
  subst h
  rfl

/-- Zeros at the end of a fraction make no difference. -/
theorem ofDecimal_zeros (digits places zeros : Nat) :
    ofDecimal (digits * Nat.pow 10 zeros) (places + zeros) = ofDecimal digits places := by
  refine ofRatio_congr (Nat.pow_pos (by decide)) (Nat.pow_pos (by decide)) ?_
  rw [show Nat.pow 10 (places + zeros) = Nat.pow 10 places * Nat.pow 10 zeros from Nat.pow_add ..,
    Nat.mul_right_comm]
  exact nearestUnits_scaled (Nat.pow_pos (by decide))

theorem ofDecimal_whole {n : Nat} {x : Magnitude} (h : x.units = n * unitsPerOne) :
    ofDecimal n 0 = .finite false x := by
  have hwhole : x.units * Nat.pow 10 0 = n * unitsPerOne := (Nat.mul_one _).trans h
  refine ofRatio_of_nearest (by decide)
    (nearestUnits_of_close x.onGrid (Nat.le_of_eq hwhole.symm) ?_)
  rw [hwhole, Nat.sub_self]
  decide

/-- A step of the finest place is less than half a least step. -/
theorem finest_below_half : 2 * unitsPerOne < finestPerOne := by decide +kernel

theorem finestPerOne_pos : 0 < finestPerOne := Nat.zero_lt_of_lt finest_below_half

theorem ofFinest_eq (decimal : Nat) :
    ofFinest decimal = ofRatio false (decimal * unitsPerOne) finestPerOne := by
  unfold ofFinest ofDecimal finestPerOne
  rfl

theorem ofFinest_wholeFinest (x : Magnitude) : ofFinest (wholeFinest x) = .finite false x := by
  have hhalf := finest_below_half
  have hpos := unitsPerOne_pos
  rw [ofFinest_eq]
  unfold wholeFinest
  generalize unitsPerOne = least, finestPerOne = finest at hhalf hpos
  have hle : x.units * finest / least * least ≤ x.units * finest := Nat.div_mul_le_self _ _
  have hlt : x.units * finest < least * (x.units * finest / least + 1) := Nat.lt_mul_div_succ _ hpos
  rw [Nat.mul_add_one, Nat.mul_comm least] at hlt
  exact ofRatio_of_nearest (by omega) (nearestUnits_of_close x.onGrid hle (by omega))

theorem eq_of_reads {a : Number} {x : Magnitude} (h : (a == .finite false x) = true)
    (ha : a.isNegative = false) : a = .finite false x := by
  replace h : a.equal (.finite false x) = true := h
  cases a with
  | nan => cases h
  | infinite negative =>
    obtain rfl : negative = false := ha
    have hlt := x.onGrid.2
    simp only [equal, position?, signed] at h
    generalize overflowUnits = first at h hlt
    simp at h
    omega
  | finite negative y =>
    obtain rfl : negative = false := ha
    obtain ⟨units, onGrid⟩ := x
    obtain ⟨units', onGrid'⟩ := y
    simp only [equal, position?, signed] at h
    obtain rfl : units' = units := Int.ofNat_inj.1 (eq_of_beq h)
    rfl

theorem isNegative_ofRatio (negative : Bool) (n d : Nat) :
    (ofRatio negative n d).isNegative = negative := by
  unfold ofRatio
  split
  · split <;> rfl
  · split <;> rfl

theorem isNegative_ofFinest (decimal : Nat) : (ofFinest decimal).isNegative = false := by
  rw [ofFinest_eq]
  exact isNegative_ofRatio _ _ _

theorem ofFinest_of_readingBack {x : Magnitude} {step decimal : Nat}
    (h : readingBack? x step = some decimal) : ofFinest decimal = .finite false x := by
  unfold readingBack? at h
  dsimp only at h
  split at h
  · rename_i hbelow
    cases h
    exact eq_of_reads (Bool.and_eq_true_iff.1 hbelow).1 (isNegative_ofFinest _)
  · split at h
    · rename_i habove
      cases h
      exact eq_of_reads habove (isNegative_ofFinest _)
    · cases h

/-- The shortest decimal of a magnitude reads back to it. -/
theorem ofFinest_shortest (x : Magnitude) : ofFinest (shortest x) = .finite false x := by
  unfold shortest
  dsimp only
  cases hfound : (List.range (digitCount (wholeFinest x))).findSome? fun i =>
      readingBack? x (Nat.pow 10 (digitCount (wholeFinest x) - 1 - i)) with
  | none =>
    rw [Option.getD_none]
    exact ofFinest_wholeFinest x
  | some decimal =>
    rw [Option.getD_some]
    obtain ⟨i, -, hi⟩ := List.exists_of_findSome?_eq_some hfound
    exact ofFinest_of_readingBack hi

end TypedFlow.Number
