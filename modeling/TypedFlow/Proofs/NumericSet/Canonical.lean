import Mathlib.NumberTheory.Real.Irrational
import TypedFlow.Proofs.NumericSet.Operations

/-!
# The normal form is canonical

Between any two real intervals of a normal form there is a gap, between any two of its integer
intervals there is an integer, every real interval has a number that is not an integer, and no
integer listed closes an open end. A set in this form is determined by its members.
-/
namespace TypedFlow

open Number (wholeLimit wholeLimit_lt)

/-- Between two cuts of the line there is an irrational number, unless they are the two cuts at one
place. -/
theorem Cut.exists_between {c d : Cut} (hbot : toLex (⊥, true) ≤ c) (h : c < d)
    (htop : d ≤ toLex (⊤, false)) :
    ∃ x : ℝ, c ≤ before x ∧ before x < d ∧ (Irrational x ∨ c = before x ∧ d = after x) := by
  obtain ⟨p, l⟩ := c
  obtain ⟨q, u⟩ := d
  rcases Prod.Lex.toLex_lt_toLex.1 h with hlt | ⟨heq, hlu⟩
  · obtain ⟨y, hpy, hyq⟩ := EReal.lt_iff_exists_real_btwn.1 hlt
    obtain ⟨z, hyz, hzq⟩ := EReal.lt_iff_exists_real_btwn.1 hyq
    obtain ⟨x, hx, hyx, hxz⟩ := exists_irrational_btwn (EReal.coe_lt_coe_iff.1 hyz)
    refine ⟨x, Prod.Lex.toLex_le_toLex.2 (.inl ?_), Prod.Lex.toLex_lt_toLex.2 (.inl ?_), .inl hx⟩
    · exact hpy.trans (EReal.coe_lt_coe_iff.2 hyx)
    · exact (EReal.coe_lt_coe_iff.2 hxz).trans hzq
  · obtain ⟨rfl, rfl⟩ := Bool.lt_iff.1 hlu
    obtain rfl : p = q := heq
    have hp : ⊥ < p := (Prod.Lex.toLex_le_toLex.1 hbot).resolve_right (by simp)
    have hp' : p < ⊤ := (Prod.Lex.toLex_le_toLex.1 htop).resolve_right (by simp)
    obtain ⟨x, rfl⟩ : ∃ x : ℝ, p = x := ⟨p.toReal, (EReal.coe_toReal hp'.ne hp.ne').symm⟩
    exact ⟨x, le_rfl, h, .inr ⟨rfl, rfl⟩⟩

section Ends
variable {b : Bound} (hb : b.value.isNan = false)
include hb

theorem Bound.bot_le_lowerCut : toLex (⊥, true) ≤ b.lowerCut := by
  refine Prod.Lex.toLex_le_toLex.2 ?_
  cases hincl : b.inclusive with
  | false => exact bot_le.lt_or_eq.imp_right fun heq => ⟨heq, le_rfl⟩
  | true =>
    obtain ⟨x, hx⟩ := place_of_inclusive hb hincl
    exact .inl (hx ▸ EReal.bot_lt_coe x)

theorem Bound.upperCut_le_top : b.upperCut ≤ toLex (⊤, false) := by
  refine Prod.Lex.toLex_le_toLex.2 ?_
  cases hincl : b.inclusive with
  | false => exact le_top.lt_or_eq.imp_right fun heq => ⟨heq, le_rfl⟩
  | true =>
    obtain ⟨x, hx⟩ := place_of_inclusive hb hincl
    exact .inl (hx ▸ EReal.coe_lt_top x)

end Ends

namespace Interval
variable {i j k : Interval}

/-- A gap lies between the two. -/
def Apart (i j : Interval) : Prop := i.upper.upperCut < j.lower.lowerCut

/-- An integer lies between the two. -/
def Spaced (i j : Interval) : Prop := ∃ z : ℤ, ¬ i.upper.Above z ∧ ¬ j.lower.Below z

theorem apart_of_not_connects (hi : i.isEmpty = false) (hj : j.isEmpty = false)
    (h : i.StartsBy j) (hnot : ¬ i.connects j = true) : i.Apart j := by
  rw [connects_iff (clean_of_isEmpty hi) (clean_of_isEmpty hj), not_and_or, not_le, not_le] at hnot
  rcases hnot with hlt | hlt
  · exact hlt
  · exact absurd (h.trans_lt (lt_of_isEmpty hj)) hlt.not_gt

/-- A step that is rounded still does not pass the lower end of another interval. -/
theorem Integral.next_lt (hi : i.Integral) {b : Bound} (hb : b.value.isNan = false)
    (h : (i.upper.value + 1).lt b.value = true) :
    ∃ z, i.upper.ClosedAt z ∧ (((z + 1 : ℤ) : ℝ) : EReal) < b.value.place := by
  by_cases hf : i.upper.isFinite = true
  · obtain ⟨z, hz⟩ := hi.upper hf
    refine ⟨z, hz, ?_⟩
    have hone := Number.holds_one
    rw [Number.lt_iff (Number.isNan_add hf hone.isFinite) hb] at h
    by_contra hle
    refine absurd (Number.le_place_add hf hone.isFinite hb ?_) h.not_ge
    rw [hz.holds.place_eq, hone.place_eq, ← EReal.coe_add, ← Int.cast_add]
    exact not_lt.1 hle
  · -- an infinite upper end stays where it is, and nothing is above it
    have hf : i.upper.isFinite = false := by simpa using hf
    have hnan := (clean_of_isEmpty hi.nonempty).upper
    obtain ⟨x, hx⟩ := exists_mem hi.nonempty
    have hall := fun y => (hx.2.of_infinite hf y).le_place
    have hnext : i.upper.value + 1 = i.upper.value := by
      simp only [Bound.isFinite] at hf
      cases hv : i.upper.value with
      | nan =>
        rw [hv] at hnan
        cases hnan
      | infinite negative => exact Number.infinite_add Number.holds_one.isFinite
      | finite negative size =>
        rw [hv] at hf
        cases hf
    rw [hnext, Number.lt_iff hnan hb] at h
    obtain ⟨y, hy, -⟩ := EReal.lt_iff_exists_real_btwn.1 h
    exact absurd hy (hall y).not_gt

theorem StartsBy.place_le (h : i.StartsBy j) : i.lower.value.place ≤ j.lower.value.place := by
  rcases Prod.Lex.toLex_le_toLex.1 h with hlt | ⟨heq, -⟩
  · exact hlt.le
  · exact heq.le

theorem spaced_of_not_connects (hi : i.Integral) (hj : j.Integral) (h : i.StartsBy j)
    (hnot : ¬ i.connectsIntegers j = true) : i.Spaced j := by
  simp only [connectsIntegers] at hnot
  rw [Bool.and_eq_true, Bool.not_eq_true', Bool.not_eq_true', not_and_or, Bool.not_eq_false,
    Bool.not_eq_false] at hnot
  rcases hnot with hlt | hlt
  · obtain ⟨z, hz, hlt⟩ := hi.next_lt (clean_of_isEmpty hj.nonempty).lower hlt
    refine ⟨z + 1, ?_, fun hbelow => absurd hbelow.place_le hlt.not_ge⟩
    rw [hz.above_iff]
    omega
  · obtain ⟨z, hz, hlt⟩ := hj.next_lt (clean_of_isEmpty hi.nonempty).lower hlt
    obtain ⟨w, hw⟩ := hj.exists_int
    have hle := (h.place_le.trans hw.1.place_le).trans (Bound.coe_le_coe.2 ((hz.above_iff w).1 hw.2))
    have hlt := Bound.coe_lt_coe.1 (hlt.trans_le hle)
    omega

theorem Apart.later (hij : i.Apart j) (hjk : j.StartsBy k) : i.Apart k := hij.trans_le hjk

theorem Spaced.later (hj : j.Clean) (hk : k.Clean) (hij : i.Spaced j) (hjk : j.StartsBy k) :
    i.Spaced k := by
  obtain ⟨z, hi, hj'⟩ := hij
  refine ⟨z, hi, fun hbelow => hj' ?_⟩
  rw [Bound.below_iff hj.lower]
  exact hjk.trans ((Bound.below_iff hk.lower _).1 hbelow)

/-- Some member is not an integer. -/
def Fractional (i : Interval) : Prop := ∃ x, i.Mem x ∧ ∀ z : ℤ, x ≠ z

theorem Fractional.nonempty (h : i.Fractional) : i.isEmpty = false := by
  obtain ⟨x, hx, -⟩ := h
  exact isEmpty_of_mem hx

theorem Fractional.of_mem (h : i.Fractional) (hall : ∀ x, i.Mem x → j.Mem x) : j.Fractional := by
  obtain ⟨x, hx, hne⟩ := h
  exact ⟨x, hall x hx, hne⟩

/-- An interval that is not empty has a number that is not an integer, unless it is a point at
one. -/
theorem fractional_of_isEmpty (h : i.isEmpty = false)
    (hpoint : NumericSet.isIntegralPoint i = false) : i.Fractional := by
  have hclean := clean_of_isEmpty h
  obtain ⟨x, hl, hu, hx⟩ := Cut.exists_between (Bound.bot_le_lowerCut hclean.lower)
    (lt_of_isEmpty h) (Bound.upperCut_le_top hclean.upper)
  refine ⟨x, (mem_iff hclean).2 ⟨hl, hu⟩, ?_⟩
  rcases hx with hx | ⟨hlower, hupper⟩
  · exact fun z => hx.ne_int z
  · -- both ends are at `x`, and a point that is not integral is not at an integer
    rintro z rfl
    have hl := (Prod.ext_iff.1 (toLex.injective hlower)).1
    have hu := (Prod.ext_iff.1 (toLex.injective hupper)).1
    have hat : NumericSet.isIntegralPoint i = true := by
      simp only [NumericSet.isIntegralPoint, isPoint]
      rw [h, (Number.beq_iff hclean.lower hclean.upper).2 (hl.trans hu.symm),
        (Number.holds_of_place hclean.lower hl).isIntegral]
      rfl
    rw [hpoint] at hat
    cases hat

end Interval

namespace NumericSet

open TypedFlow.Interval (Lists Tame Whole Integral Fractional Apart Spaced)

/-- An end that leaves out an integer leaves out one that is not listed. -/
def Shut (integers : List Interval) (b : Bound) : Prop :=
  ∀ z : ℤ, b.inclusive = false → b.value.place = ((z : ℝ) : EReal) → ¬ IntegerMem integers z

/-- The form in which a set is determined by its members. -/
structure Tight (s : NumericSet) : Prop where
  fractional : ∀ i ∈ s.reals, i.Fractional
  shut : ∀ i ∈ s.reals, Shut s.integers i.lower ∧ Shut s.integers i.upper
  integral : ∀ i ∈ s.integers, i.Integral
  apart : s.reals.Pairwise Apart
  spaced : s.integers.Pairwise Spaced
  disjoint : ∀ i ∈ s.integers, ∀ z : ℤ, i.Mem z → ¬ ∃ r ∈ s.reals, r.Mem z

/-- A tight set within the limit that sorts as it should. -/
structure Canonical (s : NumericSet) : Prop extends Tight s, Sound s where
  plain : ∀ i ∈ s.reals, i.lower.Plain

variable {intervals reals integers whole : List Interval} {i j : Interval} {b : Bound}

section Merge

theorem pairwise_merge {good : Interval → Prop} {connects : Interval → Interval → Bool}
    {apart : Interval → Interval → Prop} (hclean : ∀ i, good i → i.Clean)
    (hhull : ∀ i j, good i → good j → connects i j = true → good (i.hull j))
    (hstarts : ∀ i j, good i → good j → startsBefore i j = true → i.StartsBy j)
    (hapart : ∀ i j, good i → good j → i.StartsBy j → ¬ connects i j = true → apart i j)
    (hlater : ∀ i j k, good j → good k → apart i j → j.StartsBy k → apart i k)
    (h : ∀ i ∈ intervals, good i) : (merge connects intervals).Pairwise apart := by
  have hmem : ∀ i ∈ intervals.mergeSort startsBefore, good i :=
    fun i hi => h i (List.mem_mergeSort.1 hi)
  have hsorted : (intervals.mergeSort startsBefore).Pairwise Interval.StartsBy :=
    (Interval.pairwise_sorted intervals).imp_of_mem fun hi hj => hstarts _ _ (hmem _ hi) (hmem _ hj)
  exact Interval.pairwise_coalesce hclean hhull hapart hlater hmem hsorted

/-- Not empty, and not starting at the negative zero. -/
structure Ordered (i : Interval) : Prop where
  nonempty : i.isEmpty = false
  plain : i.lower.Plain

theorem Ordered.clean (h : Ordered i) : i.Clean := Interval.clean_of_isEmpty h.nonempty

theorem Ordered.hull (hi : Ordered i) (hj : Ordered j) : Ordered (i.hull j) where
  nonempty := Interval.isEmpty_hull hi.nonempty hj.nonempty
  plain := Bound.looserLower_of_both hi.plain hj.plain

theorem ordered_merge {connects : Interval → Interval → Bool} (h : ∀ i ∈ intervals, Ordered i) :
    ∀ i ∈ merge connects intervals, Ordered i := by
  have hsorted : ∀ i ∈ intervals.mergeSort startsBefore, Ordered i :=
    fun i hi => h i (List.mem_mergeSort.1 hi)
  have hends : ∀ i ∈ intervals, i.EndsIn fun _ => True :=
    fun i hi => ⟨(h i hi).nonempty, trivial, trivial⟩
  exact fun i hi => ⟨(endsIn_merge hends i hi).nonempty,
    Interval.lower_coalesce (fun k hk => (hsorted k hk).plain) i hi⟩

theorem apart_mergeReals (h : ∀ i ∈ intervals, Ordered i) :
    (mergeReals intervals).Pairwise Apart := by
  refine pairwise_merge (fun i => Ordered.clean) (fun i j hi hj _ => hi.hull hj)
    (fun i j hi hj => ?_) (fun i j hi hj => ?_) (fun i j k _ _ => Interval.Apart.later) h
  · exact Interval.startsBy_of_plain hi.clean hj.clean hi.plain hj.plain
  · exact Interval.apart_of_not_connects hi.nonempty hj.nonempty

theorem spaced_mergeIntegers (h : ∀ i ∈ intervals, i.Integral) :
    (mergeIntegers intervals).Pairwise Spaced := by
  have hclean : ∀ i : Interval, i.Integral → i.Clean :=
    fun i hi => Interval.clean_of_isEmpty hi.nonempty
  refine pairwise_merge hclean (fun i j hi hj _ => hi.hull hj)
    (fun i j => Interval.startsBy_of_integral) (fun i j => Interval.spaced_of_not_connects)
    (fun i j k hj hk => ?_) h
  exact Interval.Spaced.later (hclean j hj) (hclean k hk)

theorem joins_fractional : Joins Fractional id Interval.connects := by
  intro i j hi hj h
  have hmem := (joins_reals i j hi.nonempty hj.nonempty h).2
  exact ⟨hi.of_mem fun x hx => (hmem x).2 (.inl hx), hmem⟩

end Merge

section CloseEnds
variable (hw : ∀ k ∈ whole, k.Integral)
include hw

theorem shut_closeEnd (hb : b.value.isNan = false) : Shut whole (closeEnd whole b) := by
  intro z hopen hplace hmem
  rcases closeEnd_cases whole b with heq | ⟨heq, hintegral, -⟩
  · -- an end that stays open at a listed integer would have been closed
    rw [heq] at hopen hplace
    have hz := Number.holds_of_place hb hplace
    have hpoint := mem_point hz
    obtain ⟨w, hw', k, hk, hkw⟩ := hmem
    rw [← hw'] at hkw
    have hck := Interval.clean_of_isEmpty (hw k hk).nonempty
    have hends := Bound.closedAt_closed hz
    have hcontains : k.containsValue b.value = true := by
      obtain ⟨hl, hu⟩ := (Interval.mem_iff hck).1 hkw
      simp only [Interval.containsValue, Interval.contains, Interval.point]
      rw [Bool.and_eq_true, Bound.lowerLE_iff hck.lower (Bound.isNan_of_closedAt hends),
        Bound.upperGE_iff hck.upper (Bound.isNan_of_closedAt hends), hends.lowerCut_eq,
        hends.upperCut_eq]
      exact ⟨hl, Cut.before_lt_iff.1 hu⟩
    have hclosed : closeEnd whole b = .closed b.value := by
      simp only [closeEnd]
      rw [if_pos]
      rw [Bool.and_eq_true, List.any_eq_true]
      exact ⟨hz.isIntegral, k, hk, hcontains⟩
    rw [heq] at hclosed
    rw [hclosed, hends.inclusive] at hopen
    cases hopen
  · obtain ⟨w, hw'⟩ := Number.exists_holds hintegral
    rw [heq, (Bound.closedAt_closed hw').inclusive] at hopen
    cases hopen

theorem ordered_closeEnds (hi : Ordered i) : Ordered (closeEnds whole i) where
  nonempty := isEmpty_closeEnds hw hi.nonempty
  plain := closeEnd_of_value (P := (· ≠ -.zero)) hi.plain

end CloseEnds

section NormalForm

/-- A real interval of a normal form with its ends shut. -/
structure Closed (integers : List Interval) (i : Interval) : Prop where
  fractional : i.Fractional
  lower : Shut integers i.lower
  upper : Shut integers i.upper

theorem joins_closed (integers : List Interval) :
    Joins (Closed integers) id Interval.connects := by
  intro i j hi hj h
  obtain ⟨hfractional, hmem⟩ := joins_fractional i j hi.fractional hj.fractional h
  exact ⟨⟨hfractional, Bound.looserLower_of_both hi.lower hj.lower,
    Bound.looserUpper_of_both hi.upper hj.upper⟩, hmem⟩

theorem fractional_ranges : ∀ i ∈ ranges reals, i.Fractional := by
  intro i hi
  obtain ⟨-, hne, hpoint⟩ := mem_ranges.1 hi
  exact Interval.fractional_of_isEmpty hne hpoint

theorem closed_reals : ∀ i ∈ (ofParts reals integers).reals,
    Closed (mergeIntegers (listed reals integers)) i := by
  have hw : ∀ k ∈ mergeIntegers (listed reals integers), k.Integral := integral_whole
  have hmerged := lists_merge joins_fractional (Lists.of_good (@fractional_ranges reals))
  rw [ofParts_reals]
  refine (lists_absorb (joins_closed _) fun i hi => ?_).good
  obtain ⟨j, hj, rfl⟩ := List.mem_map.1 hi
  have hj := hmerged.good j hj
  have hclean := Interval.clean_of_isEmpty hj.nonempty
  exact ⟨hj.of_mem fun x hx => mem_closeEnds hw hx, shut_closeEnd hw hclean.lower,
    shut_closeEnd hw hclean.upper⟩

section Ordered
variable (hplain : ∀ i ∈ reals, i.lower.Plain)
include hplain

theorem ordered_ranges : ∀ i ∈ ranges reals, Ordered i := fun i hi =>
  have hi := mem_ranges.1 hi
  ⟨hi.2.1, hplain i hi.1⟩

theorem ordered_closed : ∀ i ∈ (mergeReals (ranges reals)).map
    (closeEnds (mergeIntegers (listed reals integers))), Ordered i := by
  intro i hi
  obtain ⟨j, hj, rfl⟩ := List.mem_map.1 hi
  exact ordered_closeEnds integral_whole (ordered_merge (ordered_ranges hplain) j hj)

theorem ordered_reals : ∀ i ∈ (ofParts reals integers).reals, Ordered i := by
  rw [ofParts_reals]
  rcases absorb_cases (mergeIntegers (listed reals integers)) (mergeReals (ranges reals)) with
    ⟨-, heq⟩ | heq
  · rw [heq]
    exact ordered_merge (ordered_ranges hplain)
  · rw [heq]
    exact ordered_merge (ordered_closed hplain)

theorem apart_reals : (ofParts reals integers).reals.Pairwise Apart := by
  rw [ofParts_reals]
  rcases absorb_cases (mergeIntegers (listed reals integers)) (mergeReals (ranges reals)) with
    ⟨-, heq⟩ | heq
  · rw [heq]
    exact apart_mergeReals (ordered_ranges hplain)
  · rw [heq]
    exact apart_mergeReals (ordered_closed hplain)

end Ordered

theorem integral_integers : ∀ i ∈ (ofParts reals integers).integers, i.Integral := by
  rw [ofParts_integers]
  exact endsIn_merge (integral_uncovered integral_whole)

theorem spaced_integers : (ofParts reals integers).integers.Pairwise Spaced := by
  rw [ofParts_integers]
  exact spaced_mergeIntegers (integral_uncovered integral_whole)

/-- Where no two real intervals touch. -/
theorem tight_of_apart (h : StepsExactly reals integers)
    (hapart : (ofParts reals integers).reals.Pairwise Apart) : (ofParts reals integers).Tight := by
  have hrest := lists_rest h
  -- the integers that are left were all listed, so that what was shut stays so
  have hshut : ∀ b, Shut (mergeIntegers (listed reals integers)) b →
      Shut (ofParts reals integers).integers b := by
    intro b hb z hopen hplace hmem
    obtain ⟨w, hzw, hk⟩ := hmem
    exact hb z hopen hplace ⟨w, hzw, ((hrest.mem w).1 hk).1⟩
  constructor
  · exact fun i hi => (closed_reals i hi).fractional
  · exact fun i hi => ⟨hshut _ (closed_reals i hi).lower, hshut _ (closed_reals i hi).upper⟩
  · exact integral_integers
  · exact hapart
  · exact spaced_integers
  · exact fun i hi z hz => ((hrest.mem z).1 ⟨i, hi, hz⟩).2

theorem tight_ofParts (h : StepsExactly reals integers) (hplain : ∀ i ∈ reals, i.lower.Plain) :
    (ofParts reals integers).Tight :=
  tight_of_apart h (apart_reals hplain)

theorem canonical_ofParts (h : Fit reals integers) (hplain : ∀ i ∈ reals, i.lower.Plain) :
    (ofParts reals integers).Canonical where
  toTight := tight_ofParts h.stepsExactly hplain
  toSound := h.sound
  plain i hi := (ordered_reals hplain i hi).plain

end NormalForm

section Operations
variable {a c : NumericSet}

theorem canonical_union (ha : a.Canonical) (hc : c.Canonical) : (a.union c).Canonical := by
  apply canonical_ofParts (fit_append ha.toSound hc.toSound)
  intro i hi
  rcases List.mem_append.1 hi with hi | hi
  · exact ha.plain i hi
  · exact hc.plain i hi

theorem canonical_intersect (ha : a.Canonical) (hc : c.Canonical) :
    (a.intersect c).Canonical := by
  apply canonical_ofParts (fit_marked (partSound_overlaps ha.toSound hc.toSound))
  -- an overlap that is not marked is one of two real intervals
  intro i hi
  obtain ⟨part, hpart, rfl⟩ := List.mem_map.1 hi
  rw [List.mem_filter, Bool.not_eq_true'] at hpart
  obtain ⟨hpart, hmark⟩ := hpart
  obtain ⟨p, hp, q, hq, k, hk, rfl⟩ := mem_overlaps.1 hpart
  obtain ⟨hmp, hmq⟩ := Bool.or_eq_false_iff.1 hmark
  obtain ⟨rfl, -⟩ := Interval.nonempty?_eq_some hk
  exact Bound.tighterLower_of_both (ha.plain _ (mem_reals_of_part hp hmp))
    (hc.plain _ (mem_reals_of_part hq hmq))

end Operations

end NumericSet
end TypedFlow
