import TypedFlow.Proofs.NumericSet.Canonical

/-!
# The sets that there are

Every numeric set is a normal form. Whatever its ends are, none of its intervals is empty, its real
intervals are no points at integers, its integer intervals have integers as ends, and between any
two of these there is an integer. Normal forms, unions and intersections of sets with ends within
the limit have exactly the members that they should, and again ends within the limit.
-/
namespace TypedFlow.NumericSet

open TypedFlow.Interval (Apart Fractional Integral Spaced)

def Standard (s : NumericSet) : Prop := ∃ reals integers, s = ofParts reals integers

/-- Real intervals end below the limit, integer intervals at most there. -/
structure Within (s : NumericSet) : Prop where
  reals : ∀ i ∈ s.reals, i.Moderate
  integers : ∀ i ∈ s.integers, i.lower.Modest ∧ i.upper.Modest

section Single
variable {i : Interval}

theorem uncovered_nil (reals : List Interval) : uncovered reals [] = [] := by
  induction reals with
  | nil => rfl
  | cons r reals ih =>
    rw [uncovered_cons]
    cases r.integers? <;> exact ih

theorem ofParts_range (hne : i.isEmpty = false) (hpoint : isIntegralPoint i = false) :
    ofParts [i] [] = ⟨[i], []⟩ := by
  have hopen : ∀ b, closeEnd [] b = b := fun b => by simp [closeEnd]
  simp [ofParts, mergeReals, mergeIntegers, merge, coalesce, absorb, closeEnds, uncovered_nil, hne,
    hpoint, hopen]

theorem ofParts_point (hne : i.isEmpty = false) (hpoint : isIntegralPoint i = true) :
    ofParts [i] [] = ⟨[], [i]⟩ := by
  simp [ofParts, mergeReals, mergeIntegers, merge, coalesce, absorb, uncovered, hne, hpoint]

end Single

section Standard
variable {s : NumericSet} (h : s.Standard)
include h

theorem Standard.fractional : ∀ i ∈ s.reals, i.Fractional := by
  obtain ⟨reals, integers, rfl⟩ := h
  exact fun i hi => (closed_reals i hi).fractional

theorem Standard.integral : ∀ i ∈ s.integers, i.Integral := by
  obtain ⟨reals, integers, rfl⟩ := h
  exact integral_integers

theorem Standard.spaced : s.integers.Pairwise Spaced := by
  obtain ⟨reals, integers, rfl⟩ := h
  exact spaced_integers

theorem Standard.sound (hw : s.Within) : s.Sound where
  reals i hi := ⟨(h.fractional i hi).nonempty, (hw.reals i hi).lower, (hw.reals i hi).upper⟩
  integers i hi := by
    obtain ⟨hl, hu⟩ := hw.integers i hi
    have hi := h.integral i hi
    exact ⟨hi.nonempty, Interval.whole_of_modest hl hi.lower, Interval.whole_of_modest hu hi.upper⟩

end Standard

theorem Sound.within {s : NumericSet} (h : s.Sound) : s.Within where
  reals i hi := ⟨(h.reals i hi).lower, (h.reals i hi).upper⟩
  integers i hi := (h.integers i hi).modest

/-- A normal form of intervals with ends within the limit. -/
def Fitted (s : NumericSet) : Prop := ∃ reals integers, Fit reals integers ∧ s = ofParts reals integers

section Fitted
variable {s a b : NumericSet}

theorem Fitted.standard (h : s.Fitted) : s.Standard := by
  obtain ⟨reals, integers, -, heq⟩ := h
  exact ⟨reals, integers, heq⟩

theorem Fitted.sound (h : s.Fitted) : s.Sound := by
  obtain ⟨reals, integers, hfit, rfl⟩ := h
  exact hfit.sound

theorem Fitted.tight (h : s.Fitted) (hapart : s.reals.Pairwise Apart) : s.Tight := by
  obtain ⟨reals, integers, hfit, rfl⟩ := h
  exact tight_of_apart hfit.stepsExactly hapart

theorem fitted_union (ha : a.Fitted) (hb : b.Fitted) : (a.union b).Fitted :=
  ⟨_, _, fit_append ha.sound hb.sound, rfl⟩

theorem fitted_intersect (ha : a.Fitted) (hb : b.Fitted) : (a.intersect b).Fitted :=
  ⟨_, _, fit_marked (partSound_overlaps ha.sound hb.sound), rfl⟩

end Fitted

theorem fit_of_moderate {reals integers : List Interval}
    (hr : ∀ i ∈ reals, i.Moderate) (hi : ∀ i ∈ integers, i.Moderate) : Fit reals integers where
  reals i h _ := ⟨(hr i h).lower, (hr i h).upper⟩
  integers i h := ⟨.inl (hi i h).lower, .inl (hi i h).upper⟩

/-- Normal forms hold the numbers of the real intervals and the integers of the integer intervals
they are made of, to which empty intervals add nothing; unions and intersections are those of the
members. -/
theorem normal_forms_keep_members :
    (∀ reals integers, (∀ i ∈ reals, i.Moderate) → (∀ i ∈ integers, i.Moderate) →
      (ofParts reals integers).Within ∧ ∀ x : ℝ, (ofParts reals integers).Mem x ↔
        (∃ i ∈ reals, i.Mem x) ∨ ∃ z : ℤ, x = z ∧ ∃ i ∈ integers, i.Mem z) ∧
    (∀ i : Interval, i.isEmpty = true → ∀ x, ¬ i.Mem x) ∧
    ∀ a b : NumericSet, a.Standard → b.Standard → a.Within → b.Within →
      ((a.union b).Within ∧ ∀ x, (a.union b).Mem x ↔ a.Mem x ∨ b.Mem x) ∧
        (a.intersect b).Within ∧ ∀ x, (a.intersect b).Mem x ↔ a.Mem x ∧ b.Mem x := by
  refine ⟨fun reals integers hr hi => ?_, fun i hempty x hx => ?_, fun a b ha hb hwa hwb => ?_⟩
  · obtain ⟨hsound, hmem⟩ := ofParts_spec (fit_of_moderate hr hi)
    exact ⟨hsound.within, hmem⟩
  · rw [Interval.isEmpty_of_mem hx] at hempty
    cases hempty
  · have hsa := ha.sound hwa
    have hsb := hb.sound hwb
    obtain ⟨hsound, hmem⟩ := intersect_spec hsa hsb
    exact ⟨⟨(sound_union hsa hsb).within, fun x => mem_union hsa hsb⟩, hsound.within, hmem⟩

/-- The numbers from zero to one, the integers from one on and the numbers up to zero. -/
theorem ray_and_half_line_keep_members :
    let ray := ofParts [⟨.closed 0, .of 1 false⟩] [⟨.closed 1, .unboundedAbove⟩]
    let halfLine := ofParts [⟨.unboundedBelow, .closed 0⟩] []
    (∀ x : ℝ, ray.Mem x ↔ (∃ i ∈ [Interval.mk (.closed 0) (.of 1 false)], i.Mem x) ∨
      ∃ z : ℤ, x = z ∧ ∃ i ∈ [Interval.mk (.closed 1) .unboundedAbove], i.Mem z) ∧
    (∀ x, ¬ (Interval.mk (.closed 1) (.closed 0)).Mem x) ∧
    (∀ x, (ray.union halfLine).Mem x ↔ ray.Mem x ∨ halfLine.Mem x) ∧
    ∀ x, (ray.intersect halfLine).Mem x ↔ ray.Mem x ∧ halfLine.Mem x := by
  intro ray halfLine
  have hzero : (Bound.closed 0).Moderate := Bound.moderate_closed Number.holds_zero (by decide)
  have hone : (Bound.closed 1).Moderate := Bound.moderate_closed Number.holds_one (by decide)
  have hopen : (Bound.of 1 false).Moderate := Bound.moderate_of Number.holds_one (by decide) false
  have hbelow : Bound.unboundedBelow.Moderate := Bound.moderate_of_infinite rfl
  have habove : Bound.unboundedAbove.Moderate := Bound.moderate_of_infinite rfl
  obtain ⟨hparts, hempty, hsets⟩ := normal_forms_keep_members
  obtain ⟨hray, hmem⟩ := hparts [⟨.closed 0, .of 1 false⟩] [⟨.closed 1, .unboundedAbove⟩]
    (List.forall_mem_singleton.2 ⟨hzero, hopen⟩) (List.forall_mem_singleton.2 ⟨hone, habove⟩)
  obtain ⟨hhalf, -⟩ := hparts [⟨.unboundedBelow, .closed 0⟩] []
    (List.forall_mem_singleton.2 ⟨hbelow, hzero⟩) (List.forall_mem_nil _)
  obtain ⟨hunion, hinter⟩ := hsets ray halfLine ⟨_, _, rfl⟩ ⟨_, _, rfl⟩ hray hhalf
  exact ⟨hmem, hempty _ (by decide +kernel), hunion.2, hinter.2⟩

end TypedFlow.NumericSet
