import TypedFlow.Proofs.NumericSet.Limit

/-!
# Operations on numeric sets and their members

Union and intersection of sound sets are sound and exact. The overlap of two parts has ends of the
parts, which are modest, so it may be asked for as integers even where an end is 2^52 itself.
-/
namespace TypedFlow

namespace Interval
variable {i j : Interval}

theorem Whole.modest (h : i.Whole) : i.lower.Modest ∧ i.upper.Modest :=
  ⟨.inr h.lower, .inr h.upper⟩

theorem Tame.modest (h : i.Tame) : i.lower.Modest ∧ i.upper.Modest :=
  ⟨.inl h.lower, .inl h.upper⟩

theorem intersect?_ends {P : Bound → Prop} {k : Interval} (h : i.intersect? j = some k)
    (hi : P i.lower ∧ P i.upper) (hj : P j.lower ∧ P j.upper) : P k.lower ∧ P k.upper := by
  obtain ⟨rfl, -⟩ := nonempty?_eq_some h
  exact ⟨Bound.tighterLower_of_both hi.1 hj.1, Bound.tighterUpper_of_both hi.2 hj.2⟩

end Interval

namespace NumericSet
variable {a b s : NumericSet} {x : ℝ}

section Parts

/-- A part holds its members, or those of them that are integers. -/
def PartMem (part : Interval × Bool) (x : ℝ) : Prop :=
  part.1.Mem x ∧ (part.2 = true → ∃ z : ℤ, x = z)

structure PartSound (part : Interval × Bool) : Prop where
  nonempty : part.1.isEmpty = false
  modest : part.1.lower.Modest ∧ part.1.upper.Modest
  moderate : part.2 = false → part.1.lower.Moderate ∧ part.1.upper.Moderate

theorem partSound_of_mem (hs : s.Sound) {part : Interval × Bool} (h : part ∈ s.parts) :
    PartSound part := by
  simp only [parts] at h
  simp only [List.mem_append, List.mem_map] at h
  rcases h with ⟨i, hi, rfl⟩ | ⟨i, hi, rfl⟩
  · have htame := hs.reals i hi
    exact ⟨htame.nonempty, htame.modest, fun _ => ⟨htame.lower, htame.upper⟩⟩
  · have hwhole := hs.integers i hi
    refine ⟨hwhole.nonempty, hwhole.modest, fun h => ?_⟩
    cases h

theorem mem_reals_of_part {part : Interval × Bool} (h : part ∈ s.parts) (hmark : part.2 = false) :
    part.1 ∈ s.reals := by
  simp only [parts] at h
  simp only [List.mem_append, List.mem_map] at h
  rcases h with ⟨i, hi, rfl⟩ | ⟨i, hi, rfl⟩
  · exact hi
  · cases hmark

theorem exists_marked (reals integers : List Interval) (x : ℝ) :
    (∃ part ∈ reals.map (·, false) ++ integers.map (·, true), PartMem part x) ↔
      (∃ i ∈ reals, i.Mem x) ∨ IntegerMem integers x := by
  simp only [List.mem_append, List.mem_map, PartMem, IntegerMem]
  constructor
  · intro hh
    rcases hh with ⟨part, ⟨i, hi, rfl⟩ | ⟨i, hi, rfl⟩, hx, hz⟩
    · exact .inl ⟨i, hi, hx⟩
    · obtain ⟨z, rfl⟩ := hz rfl
      exact .inr ⟨z, rfl, i, hi, hx⟩
  · intro hh
    rcases hh with ⟨i, hi, hx⟩ | ⟨z, rfl, i, hi, hx⟩
    · refine ⟨(i, false), .inl ⟨i, hi, rfl⟩, hx, fun h => ?_⟩
      cases h
    · exact ⟨(i, true), .inr ⟨i, hi, rfl⟩, hx, fun _ => ⟨z, rfl⟩⟩

theorem mem_iff_parts (s : NumericSet) (x : ℝ) : s.Mem x ↔ ∃ part ∈ s.parts, PartMem part x :=
  (exists_marked s.reals s.integers x).symm

theorem fit_marked {marked : List (Interval × Bool)} (h : ∀ part ∈ marked, PartSound part) :
    Fit ((marked.filter (!·.2)).map (·.1)) ((marked.filter (·.2)).map (·.1)) := by
  constructor
  · intro i hi _
    obtain ⟨part, hpart, rfl⟩ := List.mem_map.1 hi
    rw [List.mem_filter, Bool.not_eq_true'] at hpart
    exact (h part hpart.1).moderate hpart.2
  · intro i hi
    obtain ⟨part, hpart, rfl⟩ := List.mem_map.1 hi
    exact (h part (List.mem_filter.1 hpart).1).modest

theorem exists_ofMarked (marked : List (Interval × Bool)) (x : ℝ) :
    ((∃ i ∈ (marked.filter (!·.2)).map (·.1), i.Mem x) ∨
      IntegerMem ((marked.filter (·.2)).map (·.1)) x) ↔ ∃ part ∈ marked, PartMem part x := by
  simp only [IntegerMem, List.mem_map, List.mem_filter, PartMem]
  constructor
  · intro hh
    rcases hh with ⟨i, ⟨part, hpart, rfl⟩, hx⟩ | ⟨z, rfl, i, ⟨part, hpart, rfl⟩, hx⟩
    · refine ⟨part, hpart.1, hx, fun ht => ?_⟩
      simp [ht] at hpart
    · exact ⟨part, hpart.1, hx, fun _ => ⟨z, rfl⟩⟩
  · intro hh
    obtain ⟨part, hpart, hx, hz⟩ := hh
    cases hmark : part.2 with
    | false => exact .inl ⟨part.1, ⟨part, ⟨hpart, by simp [hmark]⟩, rfl⟩, hx⟩
    | true =>
      obtain ⟨z, rfl⟩ := hz hmark
      exact .inr ⟨z, rfl, part.1, ⟨part, ⟨hpart, hmark⟩, rfl⟩, hx⟩

theorem ofMarked_spec {marked : List (Interval × Bool)} (h : ∀ part ∈ marked, PartSound part) :
    (ofMarked marked).Sound ∧
      ∀ x, (ofMarked marked).Mem x ↔ ∃ part ∈ marked, PartMem part x := by
  obtain ⟨hsound, hmem⟩ := ofParts_spec (fit_marked h)
  exact ⟨hsound, fun x => (hmem x).trans (exists_ofMarked marked x)⟩

end Parts

section Binary

theorem mem_overlaps {part : Interval × Bool} :
    part ∈ (pairs a b).filterMap (fun (x, y) => (x.1.intersect? y.1).map (·, x.2 || y.2)) ↔
      ∃ p ∈ a.parts, ∃ q ∈ b.parts, ∃ k, p.1.intersect? q.1 = some k ∧ (k, p.2 || q.2) = part := by
  simp only [pairs, List.mem_filterMap, List.mem_flatMap, List.mem_map, Option.map_eq_some_iff]
  constructor
  · intro hh
    obtain ⟨_, ⟨p, hp, q, hq, rfl⟩, k, hk, rfl⟩ := hh
    exact ⟨p, hp, q, hq, k, hk, rfl⟩
  · intro hh
    obtain ⟨p, hp, q, hq, k, hk, rfl⟩ := hh
    exact ⟨(p, q), ⟨p, hp, q, hq, rfl⟩, k, hk, rfl⟩

variable (ha : a.Sound) (hb : b.Sound)
include ha hb

theorem fit_append : Fit (a.reals ++ b.reals) (a.integers ++ b.integers) := by
  constructor
  · intro i hi _
    rcases List.mem_append.1 hi with hi | hi
    · exact ⟨(ha.reals i hi).lower, (ha.reals i hi).upper⟩
    · exact ⟨(hb.reals i hi).lower, (hb.reals i hi).upper⟩
  · intro i hi
    rcases List.mem_append.1 hi with hi | hi
    · exact (ha.integers i hi).modest
    · exact (hb.integers i hi).modest

theorem sound_union : (a.union b).Sound := (ofParts_spec (fit_append ha hb)).1

theorem mem_union : (a.union b).Mem x ↔ a.Mem x ∨ b.Mem x := by
  have h := (ofParts_spec (fit_append ha hb)).2 x
  simp only [union]
  rw [h]
  simp only [Mem, IntegerMem, List.mem_append]
  grind

theorem partSound_overlap {p q : Interval × Bool} (hp : p ∈ a.parts) (hq : q ∈ b.parts)
    {k : Interval} (h : p.1.intersect? q.1 = some k) : PartSound (k, p.2 || q.2) := by
  have hp := partSound_of_mem ha hp
  have hq := partSound_of_mem hb hq
  obtain ⟨hk, hne⟩ := Interval.nonempty?_eq_some h
  refine ⟨hk ▸ hne, Interval.intersect?_ends h hp.modest hq.modest, fun hmark => ?_⟩
  rw [Bool.or_eq_false_iff] at hmark
  exact Interval.intersect?_ends h (hp.moderate hmark.1) (hq.moderate hmark.2)

theorem partSound_overlaps : ∀ part ∈ (pairs a b).filterMap
    (fun (x, y) => (x.1.intersect? y.1).map (·, x.2 || y.2)), PartSound part := by
  intro part hpart
  obtain ⟨p, hp, q, hq, k, hk, rfl⟩ := mem_overlaps.1 hpart
  exact partSound_overlap ha hb hp hq hk

theorem intersect_spec : (a.intersect b).Sound ∧ ∀ x, (a.intersect b).Mem x ↔ a.Mem x ∧ b.Mem x := by
  obtain ⟨hsound, hmem⟩ := ofMarked_spec (partSound_overlaps ha hb)
  refine ⟨hsound, fun x => (hmem x).trans ?_⟩
  rw [mem_iff_parts a, mem_iff_parts b]
  simp only [mem_overlaps]
  constructor
  · intro hh
    obtain ⟨_, ⟨p, hp, q, hq, k, hk, rfl⟩, hx, hz⟩ := hh
    have hcp := Interval.clean_of_isEmpty (partSound_of_mem ha hp).nonempty
    have hcq := Interval.clean_of_isEmpty (partSound_of_mem hb hq).nonempty
    obtain ⟨hpx, hqx⟩ := (Interval.exists_intersect?_iff hcp hcq).1 ⟨k, hk, hx⟩
    exact ⟨⟨p, hp, hpx, fun h => hz (by simp [h])⟩, q, hq, hqx, fun h => hz (by simp [h])⟩
  · intro hh
    obtain ⟨⟨p, hp, hpx, hpz⟩, q, hq, hqx, hqz⟩ := hh
    have hcp := Interval.clean_of_isEmpty (partSound_of_mem ha hp).nonempty
    have hcq := Interval.clean_of_isEmpty (partSound_of_mem hb hq).nonempty
    obtain ⟨k, hk, hx⟩ := (Interval.exists_intersect?_iff hcp hcq).2 ⟨hpx, hqx⟩
    refine ⟨_, ⟨p, hp, q, hq, k, hk, rfl⟩, hx, fun h => ?_⟩
    rcases Bool.or_eq_true_iff.1 h with h | h
    · exact hpz h
    · exact hqz h

theorem mem_of_contains (h : a.contains b = true) (hx : b.Mem x) : a.Mem x := by
  simp only [contains] at h
  rw [Bool.and_eq_true, List.all_eq_true, List.all_eq_true] at h
  obtain ⟨hreals, hintegers⟩ := h
  rcases hx with ⟨r, hr, hx⟩ | ⟨z, rfl, i, hi, hz⟩
  · obtain ⟨i, hi, hcontains⟩ := List.any_eq_true.1 (hreals r hr)
    have hci := Interval.clean_of_isEmpty (ha.reals i hi).nonempty
    exact .inl ⟨i, hi, Interval.mem_of_contains hci hx.clean hcontains hx⟩
  · by_cases hcovered : ∃ r ∈ a.reals, r.Mem (z : ℝ)
    · exact .inl hcovered
    · have hlists := lists_uncovered_one ha.reals (hb.integers i hi)
      obtain ⟨piece, hpiece, hz⟩ := (hlists.mem z).2 ⟨hz, hcovered⟩
      have hany := List.all_eq_true.1 (hintegers i hi) piece hpiece
      obtain ⟨k, hk, hcontains⟩ := List.any_eq_true.1 hany
      have hck := Interval.clean_of_isEmpty (ha.integers k hk).nonempty
      exact .inr ⟨z, rfl, k, hk, Interval.mem_of_contains hck hz.clean hcontains hz⟩

end Binary

theorem exists_mem (hs : s.Sound) (h : s.isEmpty = false) : ∃ x, s.Mem x := by
  simp only [isEmpty] at h
  rw [Bool.and_eq_false_iff] at h
  rcases h with h | h
  · obtain ⟨i, hi⟩ := List.exists_mem_of_ne_nil s.reals (by simpa using h)
    obtain ⟨x, hx⟩ := Interval.exists_mem (hs.reals i hi).nonempty
    exact ⟨x, .inl ⟨i, hi, hx⟩⟩
  · obtain ⟨i, hi⟩ := List.exists_mem_of_ne_nil s.integers (by simpa using h)
    obtain ⟨z, hz⟩ := (hs.integers i hi).integral.exists_int
    exact ⟨z, .inr ⟨z, rfl, i, hi, hz⟩⟩

theorem not_mem_of_isEmpty (h : s.isEmpty = true) : ¬ s.Mem x := by
  simp only [isEmpty] at h
  rw [Bool.and_eq_true, List.isEmpty_iff, List.isEmpty_iff] at h
  simp only [Mem, IntegerMem]
  simp [h.1, h.2]

theorem mem_of_isAllReals (hs : s.Sound) (h : s.isAllReals = true) : s.Mem x := by
  simp only [isAllReals] at h
  split at h
  · rename_i only hreals
    have hclean := Interval.clean_of_isEmpty (hs.reals only (by simp [hreals])).nonempty
    have hends := Bool.and_eq_true_iff.1 h
    have hlower := (Number.beq_iff hclean.lower rfl).1 (Bool.and_eq_true_iff.1 hends.1).1
    have hupper := (Number.beq_iff hclean.upper rfl).1 (Bool.and_eq_true_iff.1 hends.2).1
    refine .inl ⟨only, by simp [hreals], ⟨hclean.lower, .inl ?_⟩, hclean.upper, .inl ?_⟩
    · rw [hlower]
      exact (congrArg (· < (x : EReal)) Number.line_neg_overflow).mpr (EReal.bot_lt_coe x)
    · rw [hupper]
      exact (congrArg ((x : EReal) < ·) Number.line_overflow).mpr (EReal.coe_lt_top x)
  · cases h

end NumericSet
end TypedFlow
