import TypedFlow.NumericSet.Basic
import TypedFlow.Proofs.Interval.Integers

/-!
# Intervals in order

Sorting compares the values of lower ends, then their signs, then whether they are included. Where
no lower end is the negative zero this is the order of their cuts, and where finite lower ends are
all included it is so too. Joining the neighbours of a sorted list then leaves intervals that are
apart.
-/
namespace TypedFlow

open NumericSet (startsBefore coalesce)

namespace Bound

/-- Not the negative zero, which sorts before the zero that it equals. -/
def Plain (b : Bound) : Prop := b.value ≠ -.zero

/-- The value by which sorting compares first. -/
def rank (b : Bound) : ℤ := b.value.position?.getD (overflowUnits + 1)

variable {a b : Bound}

theorem rank_eq {p : ℤ} (h : b.value.position? = some p) : b.rank = p := by
  rw [rank, h, Option.getD_some]

theorem place_eq_of_rank_eq (ha : a.value.isNan = false) (hb : b.value.isNan = false)
    (h : a.rank = b.rank) : a.value.place = b.value.place := by
  obtain ⟨p, hp⟩ := Number.exists_position ha
  obtain ⟨q, hq⟩ := Number.exists_position hb
  rw [rank_eq hp, rank_eq hq] at h
  rw [Number.place_eq hp, Number.place_eq hq, h]

theorem place_lt_of_rank_lt (ha : a.value.isNan = false) (hb : b.value.isNan = false)
    (h : a.rank < b.rank) : a.value.place < b.value.place := by
  obtain ⟨p, hp⟩ := Number.exists_position ha
  obtain ⟨q, hq⟩ := Number.exists_position hb
  rw [rank_eq hp, rank_eq hq] at h
  rw [Number.place_eq hp, Number.place_eq hq]
  exact Number.line_lt (Number.position?_bounds hp).1 (Number.position?_bounds hq).2 h

end Bound

namespace Interval
variable {i j k : Interval}

theorem startsBefore_iff : startsBefore i j = true ↔ i.lower.rank < j.lower.rank ∨
    i.lower.rank = j.lower.rank ∧
      (j.lower.value.isNegative.toNat < i.lower.value.isNegative.toNat ∨
        j.lower.value.isNegative.toNat = i.lower.value.isNegative.toNat ∧
          j.lower.inclusive.toNat ≤ i.lower.inclusive.toNat) := by
  simp only [startsBefore, Number.totalOrder, Bound.rank]
  rw [Ordering.then_assoc, Ordering.isLE_then_iff_or, Ordering.isLE_then_iff_or,
    compare_lt_iff_lt, compare_eq_iff_eq, compare_lt_iff_lt, compare_eq_iff_eq, Nat.isLE_compare]

theorem startsBefore_trans (hij : startsBefore i j = true) (hjk : startsBefore j k = true) :
    startsBefore i k = true := by
  rw [startsBefore_iff] at *
  omega

theorem startsBefore_total (i j : Interval) : (startsBefore i j || startsBefore j i) = true := by
  rw [Bool.or_eq_true, startsBefore_iff, startsBefore_iff]
  omega

theorem pairwise_sorted (intervals : List Interval) :
    (intervals.mergeSort startsBefore).Pairwise fun i j => startsBefore i j = true := by
  apply List.pairwise_mergeSort
  · intro i j k
    exact startsBefore_trans
  · exact startsBefore_total

/-- The order of sorted lists, in terms of cuts. -/
def StartsBy (i j : Interval) : Prop := i.lower.lowerCut ≤ j.lower.lowerCut

theorem startsBy_of_startsBefore (hi : i.Clean) (hj : j.Clean) (h : startsBefore i j = true)
    (htie : i.lower.rank = j.lower.rank →
      j.lower.inclusive.toNat ≤ i.lower.inclusive.toNat ∨
        i.lower.value.isNegative = j.lower.value.isNegative) : i.StartsBy j := by
  refine Prod.Lex.toLex_le_toLex.2 ?_
  rcases startsBefore_iff.1 h with hlt | ⟨heq, htied⟩
  · exact .inl (Bound.place_lt_of_rank_lt hi.lower hj.lower hlt)
  · refine .inr ⟨Bound.place_eq_of_rank_eq hi.lower hj.lower heq, ?_⟩
    have hincl : j.lower.inclusive.toNat ≤ i.lower.inclusive.toNat := by
      rcases htie heq with hle | hsign
      · exact hle
      · rw [hsign] at htied
        omega
    revert hincl
    cases i.lower.inclusive <;> cases j.lower.inclusive <;> simp

theorem startsBy_of_plain (hi : i.Clean) (hj : j.Clean) (hpi : i.lower.Plain)
    (hpj : j.lower.Plain) (h : startsBefore i j = true) : i.StartsBy j := by
  apply startsBy_of_startsBefore hi hj h
  intro heq
  obtain ⟨p, hp⟩ := Number.exists_position hi.lower
  obtain ⟨q, hq⟩ := Number.exists_position hj.lower
  rw [Bound.rank_eq hp, Bound.rank_eq hq] at heq
  rw [Number.isNegative_eq hpi hp, Number.isNegative_eq hpj hq, heq]
  exact .inr rfl

theorem startsBy_of_integral (hi : i.Integral) (hj : j.Integral) (h : startsBefore i j = true) :
    i.StartsBy j := by
  have hci := clean_of_isEmpty hi.nonempty
  have hcj := clean_of_isEmpty hj.nonempty
  apply startsBy_of_startsBefore hci hcj h
  intro heq
  left
  have hplace := Bound.place_eq_of_rank_eq hci.lower hcj.lower heq
  by_cases hf : i.lower.isFinite = true
  · obtain ⟨z, hz⟩ := hi.lower hf
    rw [hz.inclusive]
    exact Bool.toNat_le _
  · -- an infinite end is not included, and the other end is the same infinity
    have hexcluded : j.lower.inclusive = false := by
      rw [← Bool.not_eq_true]
      intro hincl
      obtain ⟨p, hp⟩ := Number.exists_position hcj.lower
      have hreal := Number.place_finite (j.lower.finite_of_inclusive hincl) hp
      rw [← hplace] at hreal
      rcases Bound.place_infinite hci.lower (by simpa using hf) with hbot | htop
      · exact EReal.coe_ne_bot _ (hreal.symm.trans hbot)
      · exact EReal.coe_ne_top _ (hreal.symm.trans htop)
    rw [hexcluded]
    exact Nat.zero_le _

section Joined
variable {good : Interval → Prop} {connects : Interval → Interval → Bool}
  {apart : Interval → Interval → Prop} {intervals : List Interval}

theorem coalesce_of_short (h : ∀ i j rest, intervals = i :: j :: rest → False) :
    coalesce connects intervals = intervals := by
  unfold coalesce
  split
  · exact absurd rfl (h _ _ _)
  · rfl

/-- What holds of all intervals, and is kept where two are joined, holds of all that are left. -/
theorem forall_mem_coalesce
    (hjoin : ∀ i j, good i → good j → connects i j = true → good (i.hull j))
    (h : ∀ i ∈ intervals, good i) : ∀ i ∈ coalesce connects intervals, good i := by
  induction intervals using NumericSet.coalesce.induct connects with
  | case1 i j rest hconnects ih =>
    obtain ⟨hi, hrest⟩ := List.forall_mem_cons.1 h
    obtain ⟨hj, hrest⟩ := List.forall_mem_cons.1 hrest
    rw [coalesce, if_pos hconnects]
    exact ih (List.forall_mem_cons.2 ⟨hjoin i j hi hj hconnects, hrest⟩)
  | case2 i j rest hconnects ih =>
    obtain ⟨hi, hrest⟩ := List.forall_mem_cons.1 h
    rw [coalesce, if_neg hconnects]
    exact List.forall_mem_cons.2 ⟨hi, ih hrest⟩
  | case3 short hshort =>
    rwa [coalesce_of_short hshort]

theorem lower_coalesce {P : Bound → Prop} (h : ∀ i ∈ intervals, P i.lower) :
    ∀ i ∈ coalesce connects intervals, P i.lower :=
  forall_mem_coalesce (fun _ _ hi hj _ => Bound.looserLower_of_both hi hj) h

/-- By the value of the lower end, whatever the signs of zeros. -/
def RankedBy (i j : Interval) : Prop := i.lower.rank ≤ j.lower.rank

theorem rankedBy_coalesce (h : intervals.Pairwise RankedBy) :
    (coalesce connects intervals).Pairwise RankedBy := by
  induction intervals using NumericSet.coalesce.induct connects with
  | case1 i j rest hconnects ih =>
    simp only [List.pairwise_cons, List.mem_cons, forall_eq_or_imp] at h
    obtain ⟨⟨-, hi⟩, hj, hrest⟩ := h
    rw [coalesce, if_pos hconnects]
    exact ih (List.pairwise_cons.2 ⟨fun k hk => Bound.looserLower_of_both
      (P := fun b => b.rank ≤ k.lower.rank) (hi k hk) (hj k hk), hrest⟩)
  | case2 i j rest hconnects ih =>
    obtain ⟨hi, hrest⟩ := List.pairwise_cons.1 h
    rw [coalesce, if_neg hconnects]
    exact List.pairwise_cons.2
      ⟨lower_coalesce (P := fun b => i.lower.rank ≤ b.rank) hi, ih hrest⟩
  | case3 short hshort =>
    rwa [coalesce_of_short hshort]

/-- Of the intervals of a sorted list, joined where they connect, each is apart from the later
ones. -/
theorem pairwise_coalesce (hclean : ∀ i, good i → i.Clean)
    (hjoin : ∀ i j, good i → good j → connects i j = true → good (i.hull j))
    (hapart : ∀ i j, good i → good j → i.StartsBy j → ¬ connects i j = true → apart i j)
    (hlater : ∀ i j k, good j → good k → apart i j → j.StartsBy k → apart i k)
    (h : ∀ i ∈ intervals, good i) (hsorted : intervals.Pairwise StartsBy) :
    (coalesce connects intervals).Pairwise apart := by
  induction intervals using NumericSet.coalesce.induct connects with
  | case1 i j rest hconnects ih =>
    obtain ⟨hi, hgood⟩ := List.forall_mem_cons.1 h
    obtain ⟨hj, hgood⟩ := List.forall_mem_cons.1 hgood
    simp only [List.pairwise_cons, List.mem_cons, forall_eq_or_imp] at hsorted
    obtain ⟨⟨hij, hirest⟩, -, hrest⟩ := hsorted
    rw [coalesce, if_pos hconnects]
    refine ih (List.forall_mem_cons.2 ⟨hjoin i j hi hj hconnects, hgood⟩)
      (List.pairwise_cons.2 ⟨fun k hk => ?_, hrest⟩)
    have hlower := Bound.lowerCut_looser (hclean i hi).lower (hclean j hj).lower
    rw [min_eq_left hij] at hlower
    exact hlower.le.trans (hirest k hk)
  | case2 i j rest hconnects ih =>
    obtain ⟨hi, hgood⟩ := List.forall_mem_cons.1 h
    have hj := hgood j List.mem_cons_self
    rw [List.pairwise_cons] at hsorted
    have hfrom : ∀ k ∈ coalesce connects (j :: rest), j.StartsBy k := by
      apply @lower_coalesce connects (j :: rest) (fun b => j.lower.lowerCut ≤ b.lowerCut)
      exact List.forall_mem_cons.2 ⟨le_rfl, (List.pairwise_cons.1 hsorted.2).1⟩
    have hij := hapart i j hi hj (hsorted.1 j List.mem_cons_self) hconnects
    rw [coalesce, if_neg hconnects]
    exact List.pairwise_cons.2 ⟨fun k hk => hlater i j k hj (forall_mem_coalesce hjoin hgood k hk)
      hij (hfrom k hk), ih hgood hsorted.2⟩
  | case3 short hshort =>
    rw [coalesce_of_short hshort]
    -- no list of two or more is left
    cases short with
    | nil => exact .nil
    | cons i rest =>
      cases rest with
      | nil => exact List.pairwise_singleton _ _
      | cons j rest => exact absurd rfl (hshort i j rest)

end Joined

end Interval
end TypedFlow
