import TypedFlow.Proofs.NumericSet.Operations

/-!
# Emptiness of numeric sets

Joining, closing and taking away never lose all there is, whether or not their steps are rounded, so
that a normal form is empty exactly if each part that it is made from is. The parts of a normal form
are not. An intersection is empty in one order of its operands if it is in the other, although the
two may take their ends from different sides: such ends differ in the sign of a zero at most.
-/
namespace TypedFlow

namespace Number
variable {a b : Number}

theorem signed_eq_signed {m n : Bool} {c d : ℕ} (h : signed m c = signed n d) :
    c = d ∧ (m = n ∨ c = 0) := by
  have hcount : c = d := by rw [← natAbs_signed m c, h, natAbs_signed]
  subst hcount
  refine ⟨rfl, ?_⟩
  cases m <;> cases n <;> simp [signed] at h ⊢ <;> omega

theorem holds_finite_zero (negative : Bool) (h : OnGrid 0) : (finite negative ⟨0, h⟩).Holds 0 :=
  ⟨rfl, congrArg some ((signed_zero negative).trans (Int.zero_mul _).symm)⟩

/-- Only the two zeros share their place. -/
theorem eq_or_zero_of_position (h : a.position? = b.position?) :
    a = b ∨ a.Holds 0 ∧ b.Holds 0 := by
  cases a with
  | nan =>
    cases b with
    | nan => exact .inl rfl
    | _ => cases h
  | infinite m =>
    cases b with
    | nan => cases h
    | infinite n =>
      obtain ⟨-, rfl | hzero⟩ := signed_eq_signed (Option.some.inj h)
      · exact .inl rfl
      · exact absurd hzero overflowUnits_pos.ne'
    | finite n y => exact absurd (signed_eq_signed (Option.some.inj h)).1 y.onGrid.2.ne'
  | finite m x =>
    cases b with
    | nan => cases h
    | infinite n => exact absurd (signed_eq_signed (Option.some.inj h)).1 x.onGrid.2.ne
    | finite n y =>
      obtain ⟨x, hx⟩ := x
      obtain ⟨y, hy⟩ := y
      obtain ⟨rfl, rfl | rfl⟩ := signed_eq_signed (Option.some.inj h)
      · exact .inl rfl
      · exact .inr ⟨holds_finite_zero m hx, holds_finite_zero n hy⟩

end Number

namespace Bound
variable {a b : Bound}

/-- Two ends at one place, both included or both not. -/
structure Alike (a b : Bound) : Prop where
  position : a.value.position? = b.value.position?
  inclusive : a.inclusive = b.inclusive

section Clean
variable (ha : a.value.isNan = false) (hb : b.value.isNan = false)
include ha hb

theorem alike_of_place (h : a.value.place = b.value.place) (hi : a.inclusive = b.inclusive) :
    Alike a b := by
  refine ⟨?_, hi⟩
  obtain ⟨p, hp⟩ := Number.exists_position ha
  obtain ⟨q, hq⟩ := Number.exists_position hb
  have heq : a.value.equal b.value = true := (Number.beq_iff ha hb).2 h
  simp only [Number.equal, hp, hq, beq_iff_eq] at heq
  rw [hp, hq, heq]

theorem alike_tighterLower : Alike (a.tighterLower b) (b.tighterLower a) := by
  have hab := tighterLower_of_both (P := (·.value.isNan = false)) ha hb
  have hba := tighterLower_of_both (P := (·.value.isNan = false)) hb ha
  have hcut : (a.tighterLower b).lowerCut = (b.tighterLower a).lowerCut := by
    rw [lowerCut_tighter ha hb, lowerCut_tighter hb ha, max_comm]
  obtain ⟨hplace, hopen⟩ := Prod.ext_iff.1 (toLex.injective hcut)
  exact alike_of_place hab hba hplace (Bool.not_inj hopen)

theorem alike_tighterUpper : Alike (a.tighterUpper b) (b.tighterUpper a) := by
  have hab := tighterUpper_of_both (P := (·.value.isNan = false)) ha hb
  have hba := tighterUpper_of_both (P := (·.value.isNan = false)) hb ha
  have hcut : (a.tighterUpper b).upperCut = (b.tighterUpper a).upperCut := by
    rw [upperCut_tighter ha hb, upperCut_tighter hb ha, min_comm]
  obtain ⟨hplace, hincluded⟩ := Prod.ext_iff.1 (toLex.injective hcut)
  exact alike_of_place hab hba hplace hincluded

end Clean

theorem alike_of_closedAt {z : ℤ} (ha : a.ClosedAt z) (hb : b.ClosedAt z) : Alike a b :=
  ⟨ha.holds.position.trans hb.holds.position.symm, ha.inclusive.trans hb.inclusive.symm⟩

theorem modest_of_zero (h : b.value.Holds 0) : b.Modest := by
  refine .inl fun p _ hp => ?_
  obtain rfl := Option.some.inj (h.position.symm.trans hp)
  rw [Int.zero_mul]
  exact Nat.mul_pos (Nat.two_pow_pos 52) Number.unitsPerOne_pos

theorem Alike.symm (h : Alike a b) : Alike b a := ⟨h.position.symm, h.inclusive.symm⟩

theorem Alike.eq_or_zero (h : Alike a b) : a = b ∨ a.value.Holds 0 ∧ b.value.Holds 0 := by
  refine (Number.eq_or_zero_of_position h.position).imp_left fun hvalue => ?_
  have hinclusive := h.inclusive
  cases a
  cases b
  obtain rfl : _ = _ := hvalue
  obtain rfl : _ = _ := hinclusive
  rfl

end Bound

namespace Interval
variable {i j : Interval} {a b : Bound}

theorem isEmpty_congr (hl : i.lower.Alike j.lower) (hu : i.upper.Alike j.upper) :
    i.isEmpty = j.isEmpty := by
  have hnan : ∀ {x y : Number}, x.position? = y.position? → x.isNan = y.isNan := by
    intro x y h
    cases x <;> cases y <;> first | rfl | cases h
  change (_ || _ || _ || (Number.equal _ _ && _)) = (_ || _ || _ || (Number.equal _ _ && _))
  simp only [Number.lt, Number.equal, hnan hl.position, hnan hu.position, hl.position, hu.position,
    hl.inclusive, hu.inclusive]

theorem alike_firstInteger (h : a.Alike b) : (firstInteger a).Alike (firstInteger b) := by
  rcases h.eq_or_zero with rfl | ⟨ha, hb⟩
  · exact ⟨rfl, rfl⟩
  · obtain ⟨z, hz, hbelow⟩ := exists_firstInteger ha.isFinite
      (stepsUp_of_modest (Bound.modest_of_zero ha))
    obtain ⟨z', hz', hbelow'⟩ := exists_firstInteger hb.isFinite
      (stepsUp_of_modest (Bound.modest_of_zero hb))
    have hsame : ∀ w : ℤ, a.Below w ↔ b.Below w := by
      intro w
      simp only [Bound.Below, ha.place_eq, hb.place_eq, h.inclusive,
        Number.isNan_of_isFinite ha.isFinite, Number.isNan_of_isFinite hb.isFinite]
    have hzz' : z = z' := eq_of_forall_ge_iff fun w => by rw [← hbelow, ← hbelow', hsame]
    exact Bound.alike_of_closedAt (hzz' ▸ hz) hz'

theorem alike_lastInteger (h : a.Alike b) : (lastInteger a).Alike (lastInteger b) := by
  rcases h.eq_or_zero with rfl | ⟨ha, hb⟩
  · exact ⟨rfl, rfl⟩
  · obtain ⟨z, hz, habove⟩ := exists_lastInteger ha.isFinite
      (stepsDown_of_modest (Bound.modest_of_zero ha))
    obtain ⟨z', hz', habove'⟩ := exists_lastInteger hb.isFinite
      (stepsDown_of_modest (Bound.modest_of_zero hb))
    have hsame : ∀ w : ℤ, a.Above w ↔ b.Above w := by
      intro w
      simp only [Bound.Above, ha.place_eq, hb.place_eq, h.inclusive,
        Number.isNan_of_isFinite ha.isFinite, Number.isNan_of_isFinite hb.isFinite]
    have hzz' : z = z' := eq_of_forall_le_iff fun w => by rw [← habove, ← habove', hsame]
    exact Bound.alike_of_closedAt (hzz' ▸ hz) hz'

theorem nonempty?_eq_none : i.nonempty? = none ↔ i.isEmpty = true := by
  simp only [nonempty?]
  split
  · simp [*]
  · simp [*]

theorem integers?_eq_none_congr (hl : i.lower.Alike j.lower) (hu : i.upper.Alike j.upper) :
    i.integers? = none ↔ j.integers? = none := by
  have hempty : isEmpty ⟨firstInteger i.lower, lastInteger i.upper⟩ =
      isEmpty ⟨firstInteger j.lower, lastInteger j.upper⟩ :=
    isEmpty_congr (alike_firstInteger hl) (alike_lastInteger hu)
  rw [integers?, integers?, nonempty?_eq_none, nonempty?_eq_none, hempty]

theorem exists_intersect?_swapped (hi : i.Clean) (hj : j.Clean) {k : Interval}
    (h : i.intersect? j = some k) :
    ∃ l, j.intersect? i = some l ∧ k.lower.Alike l.lower ∧ k.upper.Alike l.upper := by
  have hl := Bound.alike_tighterLower hi.lower hj.lower
  have hu := Bound.alike_tighterUpper hi.upper hj.upper
  obtain ⟨rfl, hne⟩ := nonempty?_eq_some h
  have hempty : isEmpty ⟨i.lower.tighterLower j.lower, i.upper.tighterUpper j.upper⟩ =
      isEmpty ⟨j.lower.tighterLower i.lower, j.upper.tighterUpper i.upper⟩ := isEmpty_congr hl hu
  refine ⟨⟨j.lower.tighterLower i.lower, j.upper.tighterUpper i.upper⟩, ?_, hl, hu⟩
  simp only [intersect?, nonempty?]
  rw [← hempty, hne]
  rfl

/-- An integer interval has a first integer and a last one. -/
theorem Integral.integers?_ne_none (h : i.Integral) : i.integers? ≠ none := by
  obtain ⟨w, hl, hu⟩ := h.exists_int
  have hmem : Mem ⟨firstInteger i.lower, lastInteger i.upper⟩ w := by
    refine ⟨?_, ?_⟩
    · by_cases hf : i.lower.isFinite = true
      · obtain ⟨z, hz⟩ := h.lower hf
        exact (below_firstInteger (fun hopen => by simp [hz.inclusive] at hopen) w).2 hl
      · rwa [firstInteger, if_neg hf]
    · by_cases hf : i.upper.isFinite = true
      · obtain ⟨z, hz⟩ := h.upper hf
        exact (above_lastInteger (fun hopen => by simp [hz.inclusive] at hopen) w).2 hu
      · rwa [lastInteger, if_neg hf]
  rw [integers?, Ne, nonempty?_eq_none, isEmpty_of_mem hmem]
  exact Bool.false_ne_true

end Interval

namespace NumericSet
open TypedFlow.Interval (Integral)

section NormalForm
variable {connects : Interval → Interval → Bool} {intervals reals integers whole : List Interval}

theorem coalesce_eq_nil : coalesce connects intervals = [] ↔ intervals = [] := by
  induction intervals using coalesce.induct connects with
  | case1 i j rest hconnects ih =>
    rw [coalesce, if_pos hconnects, ih]
    simp
  | case2 i j rest hconnects ih =>
    rw [coalesce, if_neg hconnects]
    simp
  | case3 short hshort => rw [Interval.coalesce_of_short hshort]

theorem merge_eq_nil : merge connects intervals = [] ↔ intervals = [] := by
  rw [merge, coalesce_eq_nil, ← List.length_eq_zero_iff, List.length_mergeSort,
    List.length_eq_zero_iff]

theorem absorb_eq_nil : absorb whole intervals = [] ↔ intervals = [] := by
  rcases absorb_cases whole intervals with ⟨-, heq⟩ | heq
  · rw [heq]
  · rw [heq, mergeReals, merge_eq_nil, List.map_eq_nil_iff]

theorem uncovered_nil_left : uncovered [] integers = integers := rfl

theorem isEmpty_iff_nil {s : NumericSet} : s.isEmpty = true ↔ s.reals = [] ∧ s.integers = [] := by
  rw [isEmpty, Bool.and_eq_true, List.isEmpty_iff, List.isEmpty_iff]

theorem isEmpty_ofParts_iff_nil : (ofParts reals integers).isEmpty = true ↔
    ranges reals = [] ∧ listed reals integers = [] := by
  have hreals : (ofParts reals integers).reals = [] ↔ ranges reals = [] := by
    rw [ofParts_reals, absorb_eq_nil, mergeReals, merge_eq_nil]
  rw [isEmpty_iff_nil, ofParts_integers, ← hreals]
  refine and_congr_right fun hnil => ?_
  rw [hnil, uncovered_nil_left, mergeIntegers, merge_eq_nil, merge_eq_nil]

/-- Nothing that is not empty is lost on the way to the normal form. -/
theorem isEmpty_ofParts : (ofParts reals integers).isEmpty = true ↔
    (∀ i ∈ reals, i.isEmpty = true) ∧ ∀ i ∈ integers, i.integers? = none := by
  rw [isEmpty_ofParts_iff_nil, List.eq_nil_iff_forall_not_mem, List.eq_nil_iff_forall_not_mem]
  constructor
  · intro h
    obtain ⟨hranges, hlisted⟩ := h
    constructor
    · intro i hi
      rw [← Bool.not_eq_false]
      intro hne
      cases hpoint : isIntegralPoint i with
      | false => exact hranges i (mem_ranges.2 ⟨hi, hne, hpoint⟩)
      | true => exact hlisted i (mem_listed.2 (.inr ⟨hi, hne, hpoint⟩))
    · intro i hi
      rw [Option.eq_none_iff_forall_ne_some]
      intro k hk
      exact hlisted k (mem_listed.2 (.inl ⟨i, hi, hk⟩))
  · intro h
    obtain ⟨hreals, hintegers⟩ := h
    have hempty : ∀ i ∈ reals, i.isEmpty ≠ false := fun i hi => Bool.ne_false_iff.2 (hreals i hi)
    constructor
    · intro i hi
      obtain ⟨hmem, hne, -⟩ := mem_ranges.1 hi
      exact hempty i hmem hne
    · intro k hk
      rcases mem_listed.1 hk with ⟨i, hi, hk⟩ | ⟨hmem, hne, -⟩
      · rw [hintegers i hi] at hk
        cases hk
      · exact hempty k hmem hne

/-- No part is empty. -/
structure Solid (s : NumericSet) : Prop where
  reals : ∀ i ∈ s.reals, i.isEmpty = false
  integers : ∀ i ∈ s.integers, i.Integral

theorem solid_ofParts (reals integers : List Interval) : (ofParts reals integers).Solid where
  reals := by
    obtain ⟨_, hlists, -⟩ := closed_spec reals integers
    exact hlists.good
  integers := by
    rw [ofParts_integers]
    exact endsIn_merge (integral_uncovered integral_whole)

end NormalForm

section Operations
variable {a b : NumericSet} (ha : a.Solid) (hb : b.Solid)
include ha

theorem Solid.isEmpty_iff_parts : a.isEmpty = true ↔
    (∀ i ∈ a.reals, i.isEmpty = true) ∧ ∀ i ∈ a.integers, i.integers? = none := by
  rw [isEmpty_iff_nil]
  constructor
  · intro h
    rw [h.1, h.2]
    simp
  · intro h
    constructor
    · refine List.eq_nil_iff_forall_not_mem.2 fun i hi => ?_
      exact Bool.false_ne_true ((ha.reals i hi).symm.trans (h.1 i hi))
    · refine List.eq_nil_iff_forall_not_mem.2 fun i hi => ?_
      exact (ha.integers i hi).integers?_ne_none (h.2 i hi)

theorem Solid.clean_part {p : Interval × Bool} (hp : p ∈ a.parts) : p.1.Clean := by
  rcases List.mem_append.1 hp with hp | hp
  · obtain ⟨i, hi, rfl⟩ := List.mem_map.1 hp
    exact Interval.clean_of_isEmpty (ha.reals i hi)
  · obtain ⟨i, hi, rfl⟩ := List.mem_map.1 hp
    exact Interval.clean_of_isEmpty (ha.integers i hi).nonempty

include hb

theorem isEmpty_union : (a.union b).isEmpty = (a.isEmpty && b.isEmpty) := by
  rw [Bool.eq_iff_iff, Bool.and_eq_true, union, isEmpty_ofParts, ha.isEmpty_iff_parts,
    hb.isEmpty_iff_parts, List.forall_mem_append, List.forall_mem_append]
  exact and_and_and_comm

end Operations

section Intersection
variable {a b : NumericSet}

/-- Nothing of a part is kept by the normal form. -/
def Void (part : Interval × Bool) : Prop :=
  if part.2 then part.1.integers? = none else part.1.isEmpty = true

theorem isEmpty_ofMarked {marked : List (Interval × Bool)} :
    (ofMarked marked).isEmpty = true ↔ ∀ part ∈ marked, Void part := by
  rw [ofMarked, isEmpty_ofParts, List.forall_mem_map, List.forall_mem_map]
  constructor
  · intro h part hpart
    cases hmark : part.2 with
    | false =>
      rw [Void, if_neg (by simp [hmark])]
      exact h.1 part (List.mem_filter.2 ⟨hpart, by simp [hmark]⟩)
    | true =>
      rw [Void, if_pos hmark]
      exact h.2 part (List.mem_filter.2 ⟨hpart, hmark⟩)
  · intro h
    constructor
    · intro part hpart
      obtain ⟨hpart, hmark⟩ := List.mem_filter.1 hpart
      have hvoid := h part hpart
      rwa [Void, if_neg (by simpa using hmark)] at hvoid
    · intro part hpart
      obtain ⟨hpart, hmark⟩ := List.mem_filter.1 hpart
      have hvoid := h part hpart
      rwa [Void, if_pos hmark] at hvoid

theorem isEmpty_intersect : (a.intersect b).isEmpty = true ↔ ∀ p ∈ a.parts, ∀ q ∈ b.parts, ∀ k,
    p.1.intersect? q.1 = some k → Void (k, p.2 || q.2) := by
  rw [intersect, isEmpty_ofMarked]
  constructor
  · intro h p hp q hq k hk
    exact h _ (mem_overlaps.2 ⟨p, hp, q, hq, k, hk, rfl⟩)
  · intro h part hpart
    obtain ⟨p, hp, q, hq, k, hk, rfl⟩ := mem_overlaps.1 hpart
    exact h p hp q hq k hk

theorem Void.congr {i j : Interval} {mark : Bool} (hl : i.lower.Alike j.lower)
    (hu : i.upper.Alike j.upper) (h : Void (i, mark)) : Void (j, mark) := by
  cases mark with
  | false => exact (Interval.isEmpty_congr hl hu).symm.trans h
  | true => exact (Interval.integers?_eq_none_congr hl hu).1 h

theorem isEmpty_intersect_of_swapped (ha : a.Solid) (hb : b.Solid)
    (h : (a.intersect b).isEmpty = true) : (b.intersect a).isEmpty = true := by
  rw [isEmpty_intersect] at h ⊢
  intro q hq p hp l hl
  obtain ⟨k, hk, hlower, hupper⟩ :=
    Interval.exists_intersect?_swapped (hb.clean_part hq) (ha.clean_part hp) hl
  have hvoid := h p hp q hq k hk
  rw [Bool.or_comm] at hvoid
  exact hvoid.congr hlower.symm hupper.symm

theorem isEmpty_intersect_comm (ha : a.Solid) (hb : b.Solid) :
    (a.intersect b).isEmpty = (b.intersect a).isEmpty :=
  Bool.eq_iff_iff.2
    ⟨isEmpty_intersect_of_swapped ha hb, isEmpty_intersect_of_swapped hb ha⟩

end Intersection
end NumericSet
end TypedFlow
