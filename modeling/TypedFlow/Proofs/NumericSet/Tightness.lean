import TypedFlow.Proofs.NumericSet.Standard

/-!
# Sets that are tight

Whatever a set was made from, it is determined by its members as soon as its own ends are within the
limit and no two of its real intervals touch. Rounding may have joined integer intervals over
integers between them, but over none that a number holds; and an integer beyond the limit is in two
intervals only if the limit itself is.
-/
namespace TypedFlow

open Number (wholeLimit wholeLimit_lt)

namespace Number

theorem exists_holds_of_lt {z : ℤ} (h : z.natAbs < Nat.pow 2 53) : ∃ a : Number, a.Holds z := by
  have hholds := holds_ofUnits h (decide (z < 0))
  rw [signed_natAbs] at hholds
  exact ⟨_, hholds⟩

end Number

namespace Interval
variable {i j k : Interval}

theorem apart_of_rankedBy (hi : i.isEmpty = false) (hj : j.isEmpty = false) (h : i.RankedBy j)
    (hnot : i.connects j = false) : i.Apart j := by
  have hci := clean_of_isEmpty hi
  have hcj := clean_of_isEmpty hj
  have hplace : i.lower.value.place ≤ j.lower.value.place := by
    rcases Int.lt_or_eq_of_le h with hlt | heq
    · exact (Bound.place_lt_of_rank_lt hci.lower hcj.lower hlt).le
    · exact (Bound.place_eq_of_rank_eq hci.lower hcj.lower heq).le
  rw [← Bool.not_eq_true, connects_iff hci hcj, not_and_or, not_le, not_le] at hnot
  rcases hnot with hlt | hlt
  · exact hlt
  · -- the second would lie before the first, though it does not start before it
    have hne := lt_of_isEmpty hj
    simp only [Bound.lowerCut, Bound.upperCut, Prod.Lex.toLex_lt_toLex] at hne hlt
    rcases hne with hne | ⟨heq, hincl⟩
    · rcases hlt with hlt | ⟨heq, -⟩
      · exact absurd ((hne.trans hlt).trans_le hplace) (lt_irrefl _)
      · exact absurd ((heq ▸ hne).trans_le hplace) (lt_irrefl _)
    · rcases hlt with hlt | ⟨-, hopen⟩
      · exact absurd ((heq ▸ hlt).trans_le hplace) (lt_irrefl _)
      · rw [(Bool.lt_iff.1 hincl).2] at hopen
        cases (Bool.lt_iff.1 hopen).1

/-- The integer within the limit nearest to a member is a member. -/
theorem Whole.mem_nearest (hk : k.Whole) {z : ℤ} (hz : k.Mem z) :
    k.Mem ((max (-wholeLimit) (min z wholeLimit) : ℤ) : ℝ) := by
  obtain ⟨hl, hu⟩ := hk.modest
  constructor
  · rcases hk.integral.lower_cases with hall | ⟨y, hy⟩
    · exact hall _
    · have hyz := (hy.below_iff z).1 hz.1
      have hlimit := natAbs_le_of_modest hl hy.holds
      rw [hy.below_iff]
      omega
  · rcases hk.integral.upper_cases with hall | ⟨y, hy⟩
    · exact hall _
    · have hzy := (hy.above_iff z).1 hz.2
      have hlimit := natAbs_le_of_modest hu hy.holds
      rw [hy.above_iff]
      omega

theorem Tame.mem_nearest (hk : k.Tame) {z : ℤ} (hz : k.Mem z) :
    k.Mem ((max (-wholeLimit) (min z wholeLimit) : ℤ) : ℝ) := by
  have hl : k.lower.Modest := .inl hk.lower
  have hu : k.upper.Modest := .inl hk.upper
  have hspec := lists_integers? (rounds_of_modest hl hu)
  obtain ⟨cover, hcover, hz⟩ := (hspec.mem z).2 hz
  have hwhole := whole_integers? hl hu (Option.mem_toList.1 hcover)
  exact (hspec.mem _).1 ⟨cover, hcover, hwhole.mem_nearest hz⟩

end Interval

namespace NumericSet

open TypedFlow.Interval (Apart Lists Integral RankedBy)

variable {reals integers : List Interval}

section Order

theorem rankedBy_mergeReals (intervals : List Interval) :
    (mergeReals intervals).Pairwise RankedBy := by
  apply Interval.rankedBy_coalesce
  refine (Interval.pairwise_sorted intervals).imp fun h => ?_
  rcases Interval.startsBefore_iff.1 h with hlt | ⟨heq, -⟩
  · exact hlt.le
  · exact heq.le

theorem rankedBy_reals : (ofParts reals integers).reals.Pairwise RankedBy := by
  rw [ofParts_reals]
  rcases absorb_cases (mergeIntegers (listed reals integers)) (mergeReals (ranges reals)) with
    ⟨-, heq⟩ | heq
  · rw [heq]
    exact rankedBy_mergeReals _
  · rw [heq]
    exact rankedBy_mergeReals _

/-- No two of the real intervals overlap or touch. -/
def Separated (s : NumericSet) : Prop := s.reals.Pairwise fun i j => i.connects j = false

theorem Standard.apart {s : NumericSet} (h : s.Standard) (hs : s.Separated) :
    s.reals.Pairwise Apart := by
  have hranked : s.reals.Pairwise RankedBy := by
    obtain ⟨reals, integers, rfl⟩ := h
    exact rankedBy_reals
  refine (hranked.and hs).imp_of_mem fun hi hj hij => ?_
  exact Interval.apart_of_rankedBy (h.fractional _ hi).nonempty (h.fractional _ hj).nonempty
    hij.1 hij.2

end Order

section Integers

/-- An integer that a number holds. -/
abbrev Representable := {z : ℤ // ∃ a : Number, a.Holds z}

theorem joins_representable :
    Joins Integral (fun w : Representable => ((w : ℤ) : ℝ)) Interval.connectsIntegers := by
  intro i j hi hj h
  refine ⟨hi.hull hj, fun w => ?_⟩
  obtain ⟨a, ha⟩ := w.2
  exact Interval.mem_hull_of_holds hi hj h ha

/-- As long as the real intervals are tame, the integers that are left are known up to those that no
number holds. -/
theorem mem_integers_iff (hr : ∀ r ∈ (ofParts reals integers).reals, r.Tame) (w : Representable) :
    (∃ i ∈ (ofParts reals integers).integers, i.Mem ((w : ℤ) : ℝ)) ↔
      (∃ i ∈ mergeIntegers (listed reals integers), i.Mem ((w : ℤ) : ℝ)) ∧
        ¬ ∃ r ∈ (ofParts reals integers).reals, r.Mem ((w : ℤ) : ℝ) := by
  have hleft := lists_uncovered (Lists.of_good (@integral_whole reals integers))
    (rounds_of_tame hr) fun i _ => cutBy_of_tame hr i
  have hheld : Lists Integral (fun w : Representable => ((w : ℤ) : ℝ)) _ _ :=
    ⟨hleft.good, fun w => hleft.mem w⟩
  rw [ofParts_integers]
  exact (lists_merge joins_representable hheld).mem w

end Integers

/-- Where no two real intervals touch, a set within the limit is tight whatever it was made from. -/
theorem Standard.tight {s : NumericSet} (h : s.Standard) (hw : s.Within) (hs : s.Separated) :
    s.Tight := by
  have hapart := h.apart hs
  have hsound := h.sound hw
  obtain ⟨reals, integers, rfl⟩ := h
  have hmem := mem_integers_iff hsound.reals
  -- what was listed and shut out is not among the integers that are left
  have hshut : ∀ b : Bound, b.value.isNan = false → Shut (mergeIntegers (listed reals integers)) b →
      Shut (ofParts reals integers).integers b := by
    intro b hb hshut z hopen hplace hz
    obtain ⟨w, hzw, hz⟩ := hz
    obtain rfl := Int.cast_injective hzw
    have hheld := Number.holds_of_place hb hplace
    exact hshut z hopen hplace ⟨z, rfl, ((hmem ⟨z, _, hheld⟩).1 hz).1⟩
  constructor
  · exact fun i hi => (closed_reals i hi).fractional
  · intro i hi
    have hclosed := closed_reals i hi
    have hclean := Interval.clean_of_isEmpty hclosed.fractional.nonempty
    exact ⟨hshut _ hclean.lower hclosed.lower, hshut _ hclean.upper hclosed.upper⟩
  · exact integral_integers
  · exact hapart
  · exact spaced_integers
  · rintro i hi z hz ⟨r, hr, hrz⟩
    have hlimit := wholeLimit_lt
    have hheld := Number.exists_holds_of_lt (z := max (-wholeLimit) (min z wholeLimit)) (by omega)
    exact ((hmem ⟨_, hheld⟩).1 ⟨i, hi, (hsound.integers i hi).mem_nearest hz⟩).2
      ⟨r, hr, (hsound.reals r hr).mem_nearest hrz⟩

end NumericSet
end TypedFlow
