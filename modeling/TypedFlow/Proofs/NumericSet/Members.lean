import TypedFlow.NumericSet.Operations
import TypedFlow.Proofs.Interval.Sorting

/-!
# Members of numeric sets

A numeric set holds the real numbers of its real intervals and the integers of its integer
intervals. The normal form keeps exactly the members it is given, as long as none of the steps that
it takes from an end to a neighbouring integer is rounded: joining and closing real intervals is
exact anyway, and the integers that are taken away are covered.
-/
namespace TypedFlow

namespace Interval

/-- Leaving out the integers of `r` takes exact steps from `i`. -/
def CutBy (i r : Interval) : Prop :=
  ∀ cover, r.integers? = some cover → (∃ x, i.Mem x ∧ cover.Mem x) → i.Leaves cover

theorem CutBy.of_mem {i k r : Interval} (h : i.CutBy r) (hk : k.isEmpty = false)
    (hall : ∀ x, k.Mem x → i.Mem x) : k.CutBy r := by
  intro cover hcover hshared
  obtain ⟨x, hx, hcx⟩ := hshared
  have hck := clean_of_isEmpty hk
  have hix := hall x hx
  have hleaves := h cover hcover ⟨x, hix, hcx⟩
  have hlower := le_lower hk fun y hy => (hall y hy).1.place_le
  have hupper := upper_le hk fun y hy => (hall y hy).2.le_place
  constructor
  · intro hlt
    rw [Number.lt_iff hck.lower hcx.1.1] at hlt
    exact hleaves.below ((Number.lt_iff hix.1.1 hcx.1.1).2 (hlower.trans_lt hlt))
  · intro hlt
    rw [Number.lt_iff hcx.2.1 hck.upper] at hlt
    exact hleaves.above ((Number.lt_iff hcx.2.1 hix.2.1).2 (hlt.trans_le hupper))

end Interval

namespace NumericSet

open TypedFlow.Interval (Lists EndsIn Integral)

/-- The integers of some intervals, as real numbers. -/
def IntegerMem (intervals : List Interval) (x : ℝ) : Prop :=
  ∃ z : ℤ, x = z ∧ ∃ i ∈ intervals, i.Mem z

/-- The real numbers of a set. -/
def Mem (s : NumericSet) (x : ℝ) : Prop := (∃ i ∈ s.reals, i.Mem x) ∨ IntegerMem s.integers x

section Merge
variable {α : Type} {good : Interval → Prop} {value : α → ℝ}
  {connects : Interval → Interval → Bool} {intervals : List Interval} {P : α → Prop}
  {Q : Bound → Prop}

theorem endsIn_coalesce (h : ∀ i ∈ intervals, i.EndsIn Q) :
    ∀ i ∈ coalesce connects intervals, i.EndsIn Q :=
  Interval.forall_mem_coalesce (fun _ _ hi hj _ => hi.hull hj) h

theorem endsIn_merge (h : ∀ i ∈ intervals, i.EndsIn Q) :
    ∀ i ∈ merge connects intervals, i.EndsIn Q :=
  endsIn_coalesce fun i hi => h i (List.mem_mergeSort.1 hi)

/-- Joining two good intervals that connect gives a good one with the members of both. -/
def Joins (good : Interval → Prop) (value : α → ℝ) (connects : Interval → Interval → Bool) : Prop :=
  ∀ i j, good i → good j → connects i j = true →
    good (i.hull j) ∧ ∀ a, (i.hull j).Mem (value a) ↔ i.Mem (value a) ∨ j.Mem (value a)

theorem lists_coalesce (hjoin : Joins good value connects) (h : ∀ i ∈ intervals, good i) :
    Lists good value (coalesce connects intervals)
      (fun a => ∃ i ∈ intervals, i.Mem (value a)) := by
  induction intervals using coalesce.induct connects with
  | case1 i j rest hconnects ih =>
    have hi := h i (by simp)
    have hj := h j (by simp)
    obtain ⟨hgood, hmem⟩ := hjoin i j hi hj hconnects
    rw [coalesce, if_pos hconnects]
    refine (ih ?_).congr fun a => ?_
    · intro k hk
      rcases List.mem_cons.1 hk with rfl | hk
      · exact hgood
      · exact h k (by simp [hk])
    · simp only [List.mem_cons, exists_eq_or_imp, hmem, or_assoc]
  | case2 i j rest hconnects ih =>
    rw [coalesce, if_neg hconnects]
    have hrest := ih fun k hk => h k (List.mem_cons_of_mem i hk)
    apply (hrest.cons (h i (by simp))).congr
    simp only [List.mem_cons, exists_eq_or_imp, implies_true]
  | case3 short hshort =>
    rw [Interval.coalesce_of_short hshort]
    exact Lists.of_good h

theorem lists_merge (hjoin : Joins good value connects) (h : Lists good value intervals P) :
    Lists good value (merge connects intervals) P := by
  have hsorted := h.perm (List.mergeSort_perm intervals startsBefore)
  exact (lists_coalesce hjoin hsorted.good).congr hsorted.mem

theorem joins_reals : Joins (·.isEmpty = false) id Interval.connects := by
  intro i j hi hj h
  exact ⟨Interval.isEmpty_hull hi hj, fun x => Interval.mem_hull hi hj h⟩

/-- An integer interval with ends from a list. -/
structure EndsAmong (intervals : List Interval) (i : Interval) : Prop where
  integral : i.Integral
  lower : ∃ k ∈ intervals, i.lower = k.lower
  upper : ∃ k ∈ intervals, i.upper = k.upper

/-- Where one step from an end is found to reach another interval of a list, it is exact. -/
def Reaching (intervals : List Interval) : Prop :=
  ∀ i ∈ intervals, ∀ j ∈ intervals, i.Reaches j

theorem EndsAmong.reaches {i j : Interval} (h : Reaching intervals) (hi : EndsAmong intervals i)
    (hj : EndsAmong intervals j) : i.Reaches j := by
  obtain ⟨k, hk, hupper⟩ := hi.upper
  obtain ⟨l, hl, hlower⟩ := hj.lower
  simp only [Interval.Reaches]
  rw [hupper, hlower]
  exact h k hk l hl

theorem joins_integers (h : Reaching intervals) :
    Joins (EndsAmong intervals) ((↑) : ℤ → ℝ) Interval.connectsIntegers := by
  intro i j hi hj hconnects
  refine ⟨⟨hi.integral.hull hj.integral, ?_, ?_⟩, ?_⟩
  · exact Bound.looserLower_of_both (P := fun b => ∃ k ∈ intervals, b = k.lower) hi.lower hj.lower
  · exact Bound.looserUpper_of_both (P := fun b => ∃ k ∈ intervals, b = k.upper) hi.upper hj.upper
  · exact Interval.mem_hull_integers hi.integral hj.integral hconnects (hi.reaches h hj)
      (hj.reaches h hi)

theorem lists_mergeReals {P : ℝ → Prop} (h : Lists (·.isEmpty = false) id intervals P) :
    Lists (·.isEmpty = false) id (mergeReals intervals) P :=
  lists_merge joins_reals h

theorem lists_mergeIntegers {P : ℤ → Prop} (h : Lists Integral (↑) intervals P)
    (hreach : Reaching intervals) : Lists Integral (↑) (mergeIntegers intervals) P where
  good := endsIn_merge h.good
  mem := by
    have hends : Lists (EndsAmong intervals) (↑) intervals P :=
      ⟨fun i hi => ⟨h.good i hi, ⟨i, hi, rfl⟩, i, hi, rfl⟩, h.mem⟩
    exact (lists_merge (joins_integers hreach) hends).mem

end Merge

section CloseEnds
variable {whole : List Interval} (hw : ∀ k ∈ whole, k.Integral) {b : Bound} {i : Interval} {x : ℝ}

theorem closeEnd_cases (whole : List Interval) (b : Bound) : closeEnd whole b = b ∨
    closeEnd whole b = .closed b.value ∧ b.value.isIntegral = true ∧
      ∃ k ∈ whole, k.containsValue b.value = true := by
  simp only [closeEnd]
  split
  · rename_i h
    rw [Bool.and_eq_true, List.any_eq_true] at h
    exact .inr ⟨rfl, h⟩
  · exact .inl rfl

theorem mem_point {v : Number} {z : ℤ} (h : v.Holds z) : (Interval.point v).Mem z := by
  have hc := Bound.closedAt_closed h
  exact ⟨(hc.below_iff z).2 le_rfl, (hc.above_iff z).2 le_rfl⟩

include hw in
theorem closeEnd_eq : closeEnd whole b = b ∨
    ∃ z, (closeEnd whole b).ClosedAt z ∧ b.value.Holds z ∧ IntegerMem whole z := by
  rcases closeEnd_cases whole b with h | ⟨h, hintegral, k, hk, hcontains⟩
  · exact .inl h
  · obtain ⟨z, hz⟩ := Number.exists_holds hintegral
    have hpoint := mem_point hz
    have hclean := Interval.clean_of_isEmpty (hw k hk).nonempty
    have hmem := Interval.mem_of_contains hclean hpoint.clean hcontains hpoint
    rw [h]
    exact .inr ⟨z, Bound.closedAt_closed hz, hz, z, rfl, k, hk, hmem⟩

include hw in
theorem below_closeEnd : b.Below x → (closeEnd whole b).Below x := by
  intro h
  rcases closeEnd_eq (b := b) hw with he | ⟨z, hz, hb, -⟩
  · rwa [he]
  · refine ⟨Bound.isNan_of_closedAt hz, ?_⟩
    have hle := h.place_le
    rw [hb.place_eq, ← hz.holds.place_eq] at hle
    rcases hle.lt_or_eq with hlt | heq
    · exact .inl hlt
    · exact .inr ⟨hz.inclusive, heq⟩

include hw in
theorem above_closeEnd : b.Above x → (closeEnd whole b).Above x := by
  intro h
  rcases closeEnd_eq (b := b) hw with he | ⟨z, hz, hb, -⟩
  · rwa [he]
  · refine ⟨Bound.isNan_of_closedAt hz, ?_⟩
    have hle := h.le_place
    rw [hb.place_eq, ← hz.holds.place_eq] at hle
    rcases hle.lt_or_eq with hlt | heq
    · exact .inl hlt
    · exact .inr ⟨hz.inclusive, heq⟩

include hw in
theorem below_of_closeEnd (h : (closeEnd whole b).Below x) : b.Below x ∨ IntegerMem whole x := by
  rcases closeEnd_eq (b := b) hw with he | ⟨z, hz, hb, hmem⟩
  · rw [he] at h
    exact .inl h
  · rcases h.2 with hlt | ⟨-, heq⟩
    · rw [hz.holds.place_eq, ← hb.place_eq] at hlt
      exact .inl ⟨Number.isNan_of_isFinite hb.isFinite, .inl hlt⟩
    · rw [hz.holds.place_eq, EReal.coe_eq_coe_iff] at heq
      exact .inr (heq ▸ hmem)

include hw in
theorem above_of_closeEnd (h : (closeEnd whole b).Above x) : b.Above x ∨ IntegerMem whole x := by
  rcases closeEnd_eq (b := b) hw with he | ⟨z, hz, hb, hmem⟩
  · rw [he] at h
    exact .inl h
  · rcases h.2 with hlt | ⟨-, heq⟩
    · rw [hz.holds.place_eq, ← hb.place_eq] at hlt
      exact .inl ⟨Number.isNan_of_isFinite hb.isFinite, .inl hlt⟩
    · rw [hz.holds.place_eq, EReal.coe_eq_coe_iff] at heq
      exact .inr (heq ▸ hmem)

include hw in
theorem mem_closeEnds : i.Mem x → (closeEnds whole i).Mem x :=
  fun h => ⟨below_closeEnd hw h.1, above_closeEnd hw h.2⟩

include hw in
theorem mem_of_closeEnds (h : (closeEnds whole i).Mem x) : i.Mem x ∨ IntegerMem whole x := by
  rcases below_of_closeEnd hw h.1 with hl | hx
  · rcases above_of_closeEnd hw h.2 with hu | hx
    · exact .inl ⟨hl, hu⟩
    · exact .inr hx
  · exact .inr hx

include hw in
theorem isEmpty_closeEnds (h : i.isEmpty = false) : (closeEnds whole i).isEmpty = false := by
  obtain ⟨x, hx⟩ := Interval.exists_mem h
  exact Interval.isEmpty_of_mem (mem_closeEnds hw hx)

/-- What the value of an end decides is not changed by closing it. -/
theorem closeEnd_of_value {P : Number → Prop} (h : P b.value) : P (closeEnd whole b).value := by
  rcases closeEnd_cases whole b with he | ⟨he, -⟩
  · rwa [he]
  · rw [he]
    exact h

theorem absorb_cases (whole intervals : List Interval) :
    intervals.map (closeEnds whole) = intervals ∧ absorb whole intervals = intervals ∨
      absorb whole intervals = mergeReals (intervals.map (closeEnds whole)) := by
  simp only [absorb]
  split
  · rename_i h
    exact .inl ⟨h, rfl⟩
  · exact .inr rfl

theorem lists_absorb {good : Interval → Prop} {intervals : List Interval}
    (hjoin : Joins good id Interval.connects)
    (h : ∀ i ∈ intervals.map (closeEnds whole), good i) :
    Lists good id (absorb whole intervals)
      (fun x => ∃ i ∈ intervals.map (closeEnds whole), i.Mem x) := by
  rcases absorb_cases whole intervals with ⟨hclosed, heq⟩ | heq
  · rw [heq]
    rw [hclosed] at h ⊢
    exact Lists.of_good h
  · rw [heq]
    exact lists_merge hjoin (Lists.of_good h)

end CloseEnds

section Uncovered
variable {reals integers : List Interval}

theorem uncovered_cons (r : Interval) (reals integers : List Interval) :
    uncovered (r :: reals) integers = uncovered reals (match r.integers? with
      | none => integers
      | some cover => integers.flatMap (·.withoutIntegers cover)) := by
  simp only [uncovered]
  cases hr : r.integers? with
  | none => rw [List.filterMap_cons_none hr]
  | some cover => rw [List.filterMap_cons_some hr, List.foldl_cons]

theorem endsIn_uncovered {Q : Bound → Prop} (h : ∀ i ∈ integers, i.EndsIn Q)
    (hnext : ∀ r ∈ reals, ∀ cover, r.integers? = some cover →
      Q (.closed (cover.lower.value - 1)) ∧ Q (.closed (cover.upper.value + 1))) :
    ∀ i ∈ uncovered reals integers, i.EndsIn Q := by
  induction reals generalizing integers with
  | nil => exact h
  | cons r reals ih =>
    have hrest := fun s hs => hnext s (List.mem_cons_of_mem r hs)
    rw [uncovered_cons]
    cases hr : r.integers? with
    | none => exact ih h hrest
    | some cover =>
      obtain ⟨hl, hu⟩ := hnext r (by simp) cover hr
      refine ih (fun k hk => ?_) hrest
      obtain ⟨i, hi, hk⟩ := List.mem_flatMap.1 hk
      exact (h i hi).withoutIntegers hl hu k hk

theorem integral_uncovered (h : ∀ i ∈ integers, i.Integral) :
    ∀ i ∈ uncovered reals integers, i.Integral :=
  endsIn_uncovered h fun _ _ _ hcover =>
    have hcover := Interval.integral_integers? hcover
    ⟨hcover.lower.previous, hcover.upper.next⟩

/-- What is left of integers once those of some real intervals are taken away. -/
theorem lists_uncovered {P : ℤ → Prop} (h : Lists Integral ((↑) : ℤ → ℝ) integers P)
    (hrounds : ∀ r ∈ reals, r.Rounds) (hcut : ∀ i ∈ integers, ∀ r ∈ reals, i.CutBy r) :
    Lists Integral ((↑) : ℤ → ℝ) (uncovered reals integers)
      (fun w => P w ∧ ¬ ∃ i ∈ reals, i.Mem w) := by
  induction reals generalizing integers P with
  | nil =>
    apply h.congr
    simp
  | cons r reals ih =>
    have hrest := fun s hs => hrounds s (List.mem_cons_of_mem r hs)
    have hcutRest := fun i hi s hs => hcut i hi s (List.mem_cons_of_mem r hs)
    have hspec := Interval.lists_integers? (hrounds r (by simp))
    rw [uncovered_cons]
    cases hr : r.integers? with
    | none =>
      apply (ih h hrest hcutRest).congr
      intro w
      have hnone : ¬ r.Mem w := by
        rw [← hspec.mem, hr]
        simp
      simp only [List.mem_cons, exists_eq_or_imp, hnone, false_or]
    | some cover =>
      have hmem : ∀ w : ℤ, cover.Mem w ↔ r.Mem w := by
        intro w
        rw [← hspec.mem, hr]
        simp
      have hpieces : ∀ i ∈ integers, Lists Integral ((↑) : ℤ → ℝ) (i.withoutIntegers cover)
          (fun w => i.Mem w ∧ ¬ cover.Mem w) := fun i hi =>
        Interval.lists_withoutIntegers (h.good i hi) (Interval.integral_integers? hr)
          (hcut i hi r (by simp) cover hr)
      have hleft : Lists Integral ((↑) : ℤ → ℝ) (integers.flatMap (·.withoutIntegers cover))
          (fun w => P w ∧ ¬ cover.Mem w) := by
        refine (Lists.flatMap hpieces).congr fun w => ?_
        rw [← h.mem]
        constructor
        · intro hh
          obtain ⟨k, hk, hw, hnot⟩ := hh
          exact ⟨⟨k, hk, hw⟩, hnot⟩
        · intro hh
          obtain ⟨⟨k, hk, hw⟩, hnot⟩ := hh
          exact ⟨k, hk, hw, hnot⟩
      -- a piece lies within the interval that it is left of
      have hcutLeft : ∀ k ∈ integers.flatMap (·.withoutIntegers cover), ∀ s ∈ reals,
          k.CutBy s := by
        intro k hk s hs
        have hgood := hleft.good k hk
        obtain ⟨i, hi, hk⟩ := List.mem_flatMap.1 hk
        refine (hcutRest i hi s hs).of_mem hgood.nonempty fun x hx => ?_
        exact hgood.mem_of_integers (fun z hz => (((hpieces i hi).mem z).1 ⟨k, hk, hz⟩).1) hx
      apply (ih hleft hrest hcutLeft).congr
      intro w
      simp only [List.mem_cons, exists_eq_or_imp, hmem, not_or, and_assoc]

end Uncovered

section NormalForm
variable {reals integers : List Interval} {x : ℝ}

/-- The real intervals with which the normal form starts: neither empty nor a point at an
integer. -/
def ranges (reals : List Interval) : List Interval :=
  (reals.filter (!·.isEmpty)).filter (!isIntegralPoint ·)

/-- The integer intervals with which the normal form starts. -/
def listed (reals integers : List Interval) : List Interval :=
  integers.filterMap Interval.integers? ++ (reals.filter (!·.isEmpty)).filter isIntegralPoint

theorem ofParts_reals (reals integers : List Interval) : (ofParts reals integers).reals =
    absorb (mergeIntegers (listed reals integers)) (mergeReals (ranges reals)) := by
  simp only [ofParts]
  rw [List.partition_eq_filter_filter]
  rfl

theorem ofParts_integers (reals integers : List Interval) : (ofParts reals integers).integers =
    mergeIntegers (uncovered (ofParts reals integers).reals
      (mergeIntegers (listed reals integers))) := by
  simp only [ofParts]
  rw [List.partition_eq_filter_filter]
  rfl

theorem mem_ranges {i : Interval} :
    i ∈ ranges reals ↔ i ∈ reals ∧ i.isEmpty = false ∧ isIntegralPoint i = false := by
  simp only [ranges]
  rw [List.mem_filter, List.mem_filter, Bool.not_eq_true', Bool.not_eq_true', and_assoc]

theorem mem_listed {i : Interval} : i ∈ listed reals integers ↔
    (∃ j ∈ integers, j.integers? = some i) ∨
      i ∈ reals ∧ i.isEmpty = false ∧ isIntegralPoint i = true := by
  simp only [listed]
  rw [List.mem_append, List.mem_filterMap, List.mem_filter, List.mem_filter, Bool.not_eq_true',
    and_assoc]

theorem point_spec {i : Interval} (hi : i.isEmpty = false) (h : isIntegralPoint i = true) :
    ∃ z, i.lower.ClosedAt z ∧ i.upper.ClosedAt z := by
  simp only [isIntegralPoint, Interval.isPoint] at h
  simp only [Bool.and_eq_true] at h
  obtain ⟨⟨-, heq⟩, hintegral⟩ := h
  have hclean := Interval.clean_of_isEmpty hi
  obtain ⟨z, hz⟩ := Number.exists_holds hintegral
  have hplaces := (Number.beq_iff hclean.lower hclean.upper).1 heq
  have hends : i.lower.inclusive = true ∧ i.upper.inclusive = true := by
    simp [Interval.isEmpty, heq] at hi
    exact hi.2
  exact ⟨z, ⟨hends.1, hz⟩, hends.2,
    Number.holds_of_place hclean.upper (hplaces.symm.trans hz.place_eq)⟩

theorem endsIn_listed {Q : Bound → Prop}
    (hintegers : ∀ i ∈ integers, ∀ k, i.integers? = some k → k.EndsIn Q)
    (hpoints : ∀ i ∈ reals, i.isEmpty = false → isIntegralPoint i = true → i.EndsIn Q) :
    ∀ i ∈ listed reals integers, i.EndsIn Q := by
  intro i hi
  rcases mem_listed.1 hi with ⟨j, hj, hk⟩ | ⟨hi, hne, hpoint⟩
  · exact hintegers j hj i hk
  · exact hpoints i hi hne hpoint

theorem integral_listed : ∀ i ∈ listed reals integers, i.Integral := by
  refine endsIn_listed (fun _ _ _ => Interval.integral_integers?) fun i _ hne hpoint => ?_
  obtain ⟨z, hl, hu⟩ := point_spec hne hpoint
  exact ⟨hne, hl.integral, hu.integral⟩

theorem integral_whole : ∀ i ∈ mergeIntegers (listed reals integers), i.Integral :=
  endsIn_merge integral_listed

theorem endsIn_reals {Q : Bound → Prop} (hvalue : ∀ b whole, Q b → Q (closeEnd whole b))
    (h : ∀ i ∈ reals, i.isEmpty = false → Q i.lower ∧ Q i.upper) :
    ∀ i ∈ (ofParts reals integers).reals, i.EndsIn Q := by
  have hranges : ∀ i ∈ ranges reals, i.EndsIn Q := by
    intro i hi
    obtain ⟨hi, hne, -⟩ := mem_ranges.1 hi
    exact ⟨hne, (h i hi hne).1, (h i hi hne).2⟩
  have hclosed : ∀ i ∈ (mergeReals (ranges reals)).map
      (closeEnds (mergeIntegers (listed reals integers))), i.EndsIn Q := by
    intro i hi
    obtain ⟨j, hj, rfl⟩ := List.mem_map.1 hi
    have hj : j.EndsIn Q := endsIn_merge hranges j hj
    exact ⟨isEmpty_closeEnds integral_whole hj.nonempty, hvalue _ _ hj.lower, hvalue _ _ hj.upper⟩
  rw [ofParts_reals]
  rcases absorb_cases (mergeIntegers (listed reals integers)) (mergeReals (ranges reals)) with
    ⟨-, heq⟩ | heq
  · rw [heq]
    exact endsIn_merge hranges
  · rw [heq]
    exact endsIn_merge hclosed

/-- No step that the normal form takes from an end to a neighbouring integer is rounded. -/
structure StepsExactly (reals integers : List Interval) : Prop where
  rounds : ∀ i ∈ integers, i.Rounds
  joins : Reaching (listed reals integers)
  covers : ∀ r ∈ (ofParts reals integers).reals, r.Rounds
  cuts : ∀ i ∈ mergeIntegers (listed reals integers), ∀ r ∈ (ofParts reals integers).reals,
    i.CutBy r
  rejoins : Reaching (uncovered (ofParts reals integers).reals
    (mergeIntegers (listed reals integers)))

theorem closed_spec (reals integers : List Interval) : ∃ P : ℝ → Prop,
    Lists (·.isEmpty = false) id (ofParts reals integers).reals P ∧
      (∀ x, (∃ i ∈ ranges reals, i.Mem x) → P x) ∧
        ∀ x, P x → (∃ i ∈ ranges reals, i.Mem x) ∨
          IntegerMem (mergeIntegers (listed reals integers)) x := by
  have hmerged : Lists (·.isEmpty = false) id (mergeReals (ranges reals))
      (fun x => ∃ i ∈ ranges reals, i.Mem x) :=
    lists_mergeReals (Lists.of_good fun i hi => (mem_ranges.1 hi).2.1)
  have hw : ∀ k ∈ mergeIntegers (listed reals integers), k.Integral := integral_whole
  rw [ofParts_reals]
  generalize mergeIntegers (listed reals integers) = whole at hw
  have hclosed : ∀ i ∈ (mergeReals (ranges reals)).map (closeEnds whole), i.isEmpty = false := by
    intro i hi
    obtain ⟨j, hj, rfl⟩ := List.mem_map.1 hi
    exact isEmpty_closeEnds hw (hmerged.good j hj)
  refine ⟨_, lists_absorb joins_reals hclosed, ?_, ?_⟩
  · intro x hx
    obtain ⟨i, hi, hx⟩ := (hmerged.mem x).2 hx
    exact ⟨_, List.mem_map_of_mem hi, mem_closeEnds hw hx⟩
  · rintro x ⟨i, hi, hx⟩
    obtain ⟨j, hj, rfl⟩ := List.mem_map.1 hi
    rcases mem_of_closeEnds hw hx with hx | hx
    · exact .inl ((hmerged.mem x).1 ⟨j, hj, hx⟩)
    · exact .inr hx

section Exact
variable (h : StepsExactly reals integers)
include h

theorem lists_whole : Lists Integral ((↑) : ℤ → ℝ) (mergeIntegers (listed reals integers))
    (fun w => (∃ i ∈ integers, i.Mem w) ∨
      ∃ i ∈ reals, (i.isEmpty = false ∧ isIntegralPoint i = true) ∧ i.Mem w) := by
  refine lists_mergeIntegers ⟨integral_listed, fun w => ?_⟩ h.joins
  simp only [mem_listed]
  constructor
  · intro hh
    rcases hh with ⟨k, ⟨i, hi, hk⟩ | ⟨hi, hpoint⟩, hw⟩
    · have hspec := Interval.lists_integers? (h.rounds i hi)
      exact .inl ⟨i, hi, (hspec.mem w).1 ⟨k, Option.mem_toList.2 hk, hw⟩⟩
    · exact .inr ⟨k, hi, hpoint, hw⟩
  · intro hh
    rcases hh with ⟨i, hi, hw⟩ | ⟨i, hi, hpoint, hw⟩
    · have hspec := Interval.lists_integers? (h.rounds i hi)
      obtain ⟨k, hk, hw⟩ := (hspec.mem w).2 hw
      exact ⟨k, .inl ⟨i, hi, Option.mem_toList.1 hk⟩, hw⟩
    · exact ⟨i, .inr ⟨hi, hpoint⟩, hw⟩

/-- The integers that are listed are those of the integer intervals and points that no real
interval covers. -/
theorem lists_rest : Lists Integral ((↑) : ℤ → ℝ) (ofParts reals integers).integers
    (fun w => (∃ i ∈ mergeIntegers (listed reals integers), i.Mem w) ∧
      ¬ ∃ i ∈ (ofParts reals integers).reals, i.Mem w) := by
  rw [ofParts_integers]
  exact lists_mergeIntegers
    (lists_uncovered (Lists.of_good integral_whole) h.covers h.cuts) h.rejoins

theorem integerMem_whole (x : ℝ) : IntegerMem (mergeIntegers (listed reals integers)) x ↔
    IntegerMem integers x ∨
      ∃ i ∈ reals, (i.isEmpty = false ∧ isIntegralPoint i = true) ∧ i.Mem x := by
  simp only [IntegerMem]
  simp only [(lists_whole h).mem]
  constructor
  · intro hh
    rcases hh with ⟨z, rfl, hz | hz⟩
    · exact .inl ⟨z, rfl, hz⟩
    · exact .inr hz
  · intro hh
    rcases hh with ⟨z, rfl, hz⟩ | ⟨i, hi, hpoint, hx⟩
    · exact ⟨z, rfl, .inl hz⟩
    · obtain ⟨z, hl, hu⟩ := point_spec hpoint.1 hpoint.2
      obtain rfl := le_antisymm (hu.ge_of_above hx.2) (hl.le_of_below hx.1)
      exact ⟨z, rfl, .inr ⟨i, hi, hpoint, hx⟩⟩

/-- The normal form has exactly the members that it is asked for. -/
theorem mem_ofParts (x : ℝ) : (ofParts reals integers).Mem x ↔
    (∃ i ∈ reals, i.Mem x) ∨ IntegerMem integers x := by
  have hrest := lists_rest h
  obtain ⟨P, hclosed, hkeeps, hadds⟩ := closed_spec reals integers
  have hreals : (∃ i ∈ (ofParts reals integers).reals, i.Mem x) ↔ P x := hclosed.mem x
  have hlisted := integerMem_whole h x
  constructor
  · intro hh
    rcases hh with hx | ⟨z, rfl, hz⟩
    · rcases hadds x (hreals.1 hx) with ⟨i, hi, hx⟩ | hx
      · exact .inl ⟨i, (mem_ranges.1 hi).1, hx⟩
      · rcases hlisted.1 hx with hx | ⟨i, hi, -, hx⟩
        · exact .inr hx
        · exact .inl ⟨i, hi, hx⟩
    · rcases hlisted.1 ⟨z, rfl, ((hrest.mem z).1 hz).1⟩ with hz | ⟨i, hi, -, hz⟩
      · exact .inr hz
      · exact .inl ⟨i, hi, hz⟩
  · intro hh
    have hor : (∃ i ∈ ranges reals, i.Mem x) ∨
        IntegerMem (mergeIntegers (listed reals integers)) x := by
      rcases hh with ⟨i, hi, hx⟩ | hx
      · have hne := Interval.isEmpty_of_mem hx
        cases hpoint : isIntegralPoint i with
        | false => exact .inl ⟨i, mem_ranges.2 ⟨hi, hne, hpoint⟩, hx⟩
        | true => exact .inr (hlisted.2 (.inr ⟨i, hi, ⟨hne, hpoint⟩, hx⟩))
      · exact .inr (hlisted.2 (.inl hx))
    rcases hor with hx | ⟨z, rfl, hz⟩
    · exact .inl (hreals.2 (hkeeps x hx))
    · by_cases hcovered : ∃ i ∈ (ofParts reals integers).reals, i.Mem (z : ℝ)
      · exact .inl hcovered
      · exact .inr ⟨z, rfl, (hrest.mem z).2 ⟨hz, hcovered⟩⟩

end Exact

end NormalForm

end NumericSet
end TypedFlow
