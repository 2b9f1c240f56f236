import TypedFlow.Number.Basic

/-!
# Rounding to the nearest number

Every number that is computed or read comes from an exact fraction through `ofRatio`, the one place
where precision is lost. A half goes to the even neighbour, and what lies past the greatest number
becomes infinite.
-/
namespace TypedFlow.Number

/-- `n / d` to the nearest whole number, a half going to the even neighbour. -/
def roundDiv (n d : Nat) : Nat :=
  let q := n / d
  let r := n % d
  if 2 * r < d then q else if d < 2 * r then q + 1 else q + q % 2

theorem roundDiv_le {n d m : Nat} (hd : 0 < d) (h : n ≤ m * d) : roundDiv n d ≤ m := by
  have hn := Nat.div_add_mod n d
  rcases Nat.lt_or_ge (n / d) m with hq | hq
  · unfold roundDiv
    dsimp only
    split
    · omega
    · split <;> omega
  · have hmul : m * d ≤ d * (n / d) := by
      rw [Nat.mul_comm d]
      exact Nat.mul_le_mul_right d hq
    have hr : n % d = 0 := by omega
    have hqm : n / d ≤ m := Nat.div_le_of_le_mul (by rw [Nat.mul_comm]; exact h)
    unfold roundDiv
    simp only [hr]
    rw [if_pos (by omega)]
    exact hqm

/-- Low bits to give up so that 53 remain. -/
def excessBits (n : Nat) : Nat := n.log2 - 52

/-- The multiple of a power of two nearest to `n / d` that keeps 53 bits. -/
def nearestUnits (n d : Nat) : Nat :=
  let step := Nat.pow 2 (excessBits (n / d))
  roundDiv n (d * step) * step

theorem nearestUnits_bits {n d : Nat} (hd : 0 < d) :
    ∃ m k, m ≤ Nat.pow 2 53 ∧ nearestUnits n d = m * Nat.pow 2 k := by
  refine ⟨_, excessBits (n / d), roundDiv_le (Nat.mul_pos hd (Nat.two_pow_pos _)) ?_, rfl⟩
  have hlog : n / d < 2 ^ ((n / d).log2 + 1) := Nat.lt_log2_self
  have hle : 2 ^ ((n / d).log2 + 1) ≤ 2 ^ 53 * 2 ^ excessBits (n / d) := by
    rw [← Nat.pow_add]
    exact Nat.pow_le_pow_right (by decide) (by unfold excessBits; omega)
  have hdiv : n < d * (n / d + 1) := by
    have := Nat.lt_mul_div_succ n hd
    exact this
  have hstep : n / d + 1 ≤ 2 ^ 53 * 2 ^ excessBits (n / d) := by omega
  calc n ≤ d * (n / d + 1) := Nat.le_of_lt hdiv
    _ ≤ d * (2 ^ 53 * 2 ^ excessBits (n / d)) := Nat.mul_le_mul_left d hstep
    _ = 2 ^ 53 * (d * 2 ^ excessBits (n / d)) := by
      rw [← Nat.mul_assoc, Nat.mul_comm d, Nat.mul_assoc]

/-- The number nearest to `n / d` least steps. A zero divisor counts as one. -/
def ofRatio (negative : Bool) (n d : Nat) : Number :=
  if hd : 0 < d then
    if h : nearestUnits n d < overflowUnits then
      .finite negative ⟨nearestUnits n d, nearestUnits_bits hd, h⟩
    else .infinite negative
  else if h : nearestUnits n 1 < overflowUnits then
    .finite negative ⟨nearestUnits n 1, nearestUnits_bits Nat.one_pos, h⟩
  else .infinite negative

/-- The number nearest to a whole count of least steps. -/
def ofUnits (negative : Bool) (n : Nat) : Number := ofRatio negative n 1

def ofNat (n : Nat) : Number := ofUnits false (n * unitsPerOne)

/-- The number nearest to `digits / 10 ^ places`. -/
def ofDecimal (digits places : Nat) : Number :=
  ofRatio false (digits * unitsPerOne) (Nat.pow 10 places)

instance (n : Nat) : OfNat Number n := ⟨ofNat n⟩

end TypedFlow.Number
