import TypedFlow.Proofs.Interval.Limit
import TypedFlow.Proofs.NumericSet.Members

/-!
# Numeric sets within the limit

Where the finite ends of real intervals stay below 2^52 in magnitude, and those of integer intervals
up to it, all steps of the normal form are exact and its ends are again such.
-/
namespace TypedFlow.NumericSet

open TypedFlow.Interval (Tame Whole Integral Lists)

structure Sound (s : NumericSet) : Prop where
  reals : ∀ i ∈ s.reals, i.Tame
  integers : ∀ i ∈ s.integers, i.Whole

/-- What the normal form may be asked for: real intervals with moderate ends and integer intervals
with modest ones. Empty intervals may have any ends. -/
structure Fit (reals integers : List Interval) : Prop where
  reals : ∀ i ∈ reals, i.isEmpty = false → i.lower.Moderate ∧ i.upper.Moderate
  integers : ∀ i ∈ integers, i.lower.Modest ∧ i.upper.Modest

theorem reaching_of_whole {intervals : List Interval} (h : ∀ i ∈ intervals, i.Whole) :
    Reaching intervals :=
  fun i hi _ _ => (h i hi).reaches

section Covers
variable {reals intervals : List Interval} (hr : ∀ r ∈ reals, r.Tame)
include hr

theorem rounds_of_tame : ∀ r ∈ reals, r.Rounds :=
  fun r hr' => Interval.rounds_of_modest (.inl (hr r hr').lower) (.inl (hr r hr').upper)

theorem cutBy_of_tame (i : Interval) : ∀ r ∈ reals, i.CutBy r := fun r hr' _ hcover _ =>
  (Interval.inner_of_integers? (hr r hr').lower (hr r hr').upper hcover).leaves

/-- What real intervals leave of one integer interval. -/
theorem lists_uncovered_one {i : Interval} (hi : i.Whole) :
    Lists Integral ((↑) : ℤ → ℝ) (uncovered reals [i])
      (fun w => i.Mem w ∧ ¬ ∃ r ∈ reals, r.Mem w) := by
  have hone : Lists Integral ((↑) : ℤ → ℝ) [i] (fun w => i.Mem w ∨ False) :=
    .cons hi.integral .nil
  apply (lists_uncovered hone (rounds_of_tame hr) fun i _ => cutBy_of_tame hr i).congr
  simp

theorem whole_uncovered (h : ∀ i ∈ intervals, i.Whole) :
    ∀ i ∈ uncovered reals intervals, i.Whole :=
  endsIn_uncovered h fun r hr' _ hcover =>
    have hinner := Interval.inner_of_integers? (hr r hr').lower (hr r hr').upper hcover
    ⟨hinner.previous, hinner.next⟩

end Covers

section NormalForm
variable {reals integers : List Interval} (h : Fit reals integers)
include h

theorem Fit.whole_listed : ∀ i ∈ listed reals integers, i.Whole := by
  refine endsIn_listed (fun i hi k => ?_) fun i hi hne hpoint => ?_
  · exact Interval.whole_integers? (h.integers i hi).1 (h.integers i hi).2
  · obtain ⟨z, hl, hu⟩ := point_spec hne hpoint
    have hle := Interval.natAbs_le_of_modest (.inl (h.reals i hi hne).1) hl.holds
    exact ⟨hne, hl.whole hle, hu.whole hle⟩

theorem Fit.tame_reals : ∀ i ∈ (ofParts reals integers).reals, i.Tame :=
  endsIn_reals (fun _ _ hb => closeEnd_of_value
    (P := fun v => ∀ p, v.isFinite = true → v.position? = some p →
      p.natAbs < Number.wholeLimit * Number.unitsPerOne) hb) h.reals

theorem Fit.whole_rest : ∀ i ∈ uncovered (ofParts reals integers).reals
    (mergeIntegers (listed reals integers)), i.Whole :=
  whole_uncovered h.tame_reals (endsIn_merge h.whole_listed)

theorem Fit.stepsExactly : StepsExactly reals integers where
  rounds i hi := Interval.rounds_of_modest (h.integers i hi).1 (h.integers i hi).2
  joins := reaching_of_whole h.whole_listed
  covers := rounds_of_tame h.tame_reals
  cuts i _ := cutBy_of_tame h.tame_reals i
  rejoins := reaching_of_whole h.whole_rest

theorem Fit.sound : (ofParts reals integers).Sound where
  reals := h.tame_reals
  integers := by
    rw [ofParts_integers]
    exact endsIn_merge h.whole_rest

/-- The normal form is sound and has exactly the members that it is asked for. -/
theorem ofParts_spec : (ofParts reals integers).Sound ∧
    ∀ x, (ofParts reals integers).Mem x ↔ (∃ i ∈ reals, i.Mem x) ∨ IntegerMem integers x :=
  ⟨h.sound, mem_ofParts h.stepsExactly⟩

end NormalForm

end TypedFlow.NumericSet
