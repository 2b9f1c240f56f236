import TypedFlow.Proofs.Ty.Intersection

/-!
# The operations on types are those on sets of values

`Built` are the types that the constructors and `unionAll` make from intervals with moderate ends,
with nothing empty inside. All of them are proper, so that unions and intersections have exactly
the values that they should, subtypes have fewer values, and types are disjoint exactly if they
have no common value.
-/
namespace TypedFlow

/-- Sets of numbers made from intervals with moderate ends. -/
inductive NumericSet.Made : NumericSet → Prop
  | ofParts {reals integers : List Interval} (real : ∀ i ∈ reals, i.Moderate)
      (integer : ∀ i ∈ integers, i.Moderate) : Made (ofParts reals integers)
  | union {a b : NumericSet} (left : Made a) (right : Made b) : Made (a.union b)
  | intersect {a b : NumericSet} (left : Made a) (right : Made b) : Made (a.intersect b)

theorem NumericSet.Made.sound {set : NumericSet} (h : set.Made) : set.Sound := by
  induction h with
  | ofParts real integer =>
    refine (ofParts_spec ⟨fun i hi _ => ?_, fun i hi => ?_⟩).1
    · exact ⟨(real i hi).lower, (real i hi).upper⟩
    · exact ⟨.inl (integer i hi).lower, .inl (integer i hi).upper⟩
  | union _ _ ihl ihr => exact sound_union ihl ihr
  | intersect _ _ ihl ihr => exact (intersect_spec ihl ihr).1

namespace Ty

/-- The types that the constructors and `unionAll` make: the fields of a struct have different
names, an enum has a variant, and neither a field nor a payload is `never`. -/
inductive Built : Ty → Prop
  | any : Built .any
  | never : Built .never
  | number : Built .number
  | string : Built .string
  | stringLiteral (content : String) : Built (.stringLiteral content)
  | ofNumericSet {set : NumericSet} (made : set.Made) : Built (ofNumericSet set)
  | numeric {set : NumericSet} (made : set.Made) (nonempty : set.isEmpty = false) :
      Built (.numeric set)
  | struct {name : String} {fields : List (String × Ty)} (distinct : (fields.map (·.1)).Nodup)
      (built : ∀ entry ∈ fields, Built entry.2) (inhabited : ∀ entry ∈ fields, entry.2 ≠ .never) :
      Built (.struct name fields)
  | enumOf {name : String} {variants : List (String × Option Ty)} (nonempty : variants ≠ [])
      (built : ∀ entry ∈ Entries.ofList variants, ∀ t, entry.2 = some t → Built t)
      (inhabited : ∀ entry ∈ Entries.ofList variants, ∀ t, entry.2 = some t → t ≠ .never) :
      Built (enumOf name variants)
  | unionAll {types : List Ty} (built : ∀ t ∈ types, Built t) : Built (unionAll types)

section Constructors

theorem built_literal {value : Number} (h : (Bound.closed value).Moderate) :
    Built (literal value) := by
  simp only [literal]
  by_cases hnan : value.isNan = true
  · rw [if_pos hnan]
    exact .never
  · rw [if_neg hnan]
    exact .ofNumericSet (.ofParts (by simpa [Interval.point] using ⟨h, h⟩) (by simp))

theorem built_interval {lower upper : Bound} (hl : lower.Moderate) (hu : upper.Moderate) :
    Built (interval lower upper) :=
  .ofNumericSet (.ofParts (by simpa using ⟨hl, hu⟩) (by simp))

theorem built_intInterval {lower upper : Bound} (hl : lower.Moderate) (hu : upper.Moderate) :
    Built (intInterval lower upper) :=
  .ofNumericSet (.ofParts (by simp) (by simpa using ⟨hl, hu⟩))

theorem built_int : Built int :=
  .ofNumericSet (.ofParts (by simp) (by simpa using Interval.moderate_unbounded))

theorem mem_int_iff {v : Value} : Mem v int ↔ ∃ z : ℤ, v = .number z := by
  have hfit : NumericSet.Fit [] [.unbounded] :=
    ⟨by simp, by simpa using ⟨.inl Interval.moderate_unbounded.lower,
      .inl Interval.moderate_unbounded.upper⟩⟩
  obtain ⟨hsound, hmem⟩ := NumericSet.ofParts_spec hfit
  change Mem v (ofNumericSet (.ofParts [] [.unbounded])) ↔ _
  rw [← has_probe_iff, (ofNumericSet_spec hsound).2, has_probe_iff, mem_numeric_iff]
  simp only [hmem, NumericSet.IntegerMem, List.mem_singleton, exists_eq_left, List.not_mem_nil,
    false_and, exists_false, false_or]
  constructor
  · intro hh
    obtain ⟨x, rfl, z, rfl, -⟩ := hh
    exact ⟨z, rfl⟩
  · intro hh
    obtain ⟨z, rfl⟩ := hh
    exact ⟨z, rfl, z, rfl, Interval.mem_unbounded z⟩

theorem built_enumOf {name : String} {variants : List (String × Option Ty)}
    (nonempty : variants ≠ []) (built : ∀ entry ∈ variants, ∀ t, entry.2 = some t → Built t)
    (inhabited : ∀ entry ∈ variants, ∀ t, entry.2 = some t → t ≠ .never) :
    Built (enumOf name variants) :=
  .enumOf nonempty (fun entry hentry => built entry (Entries.mem_of_mem_ofList hentry))
    fun entry hentry => inhabited entry (Entries.mem_of_mem_ofList hentry)

theorem built_bool : Built bool := built_enumOf (List.cons_ne_nil _ _) (by simp) (by simp)

theorem built_boolLiteral (value : Bool) : Built (boolLiteral value) :=
  @built_enumOf boolName [(truthName value, none)] (List.cons_ne_nil _ _) (by simp) (by simp)

end Constructors

theorem Built.proper {t : Ty} (h : t.Built) : t.Proper := by
  induction h with
  | any => exact .any
  | never => exact .never
  | number => exact .number
  | string => exact .string
  | stringLiteral content => exact .stringLiteral content
  | ofNumericSet made => exact (ofNumericSet_spec made.sound).1
  | numeric made nonempty => exact .numeric made.sound nonempty
  | struct distinct _ inhabited ih =>
    exact .struct distinct ih fun entry hentry => isNever_eq_false (inhabited entry hentry)
  | enumOf nonempty _ inhabited ih =>
    exact .enum (Entries.ofList_ne_nil nonempty) (Entries.ascending_ofList _) ih
      fun entry hentry t ht => isNever_eq_false (inhabited entry hentry t ht)
  | unionAll _ ih => exact (unionAll_spec ih).1

section Values
variable {a b : Ty} (ha : a.Proper) (hb : b.Proper) {v : Value}
include ha hb

theorem mem_union : Mem v (union a b) ↔ Mem v a ∨ Mem v b := by
  simp only [← has_probe_iff]
  exact has_union ha hb

theorem mem_intersect : Mem v (intersect a b) ↔ Mem v a ∧ Mem v b := by
  simp only [← has_probe_iff]
  exact (intersect_spec ha hb).2 v.probe

theorem mem_of_isSubtype (h : isSubtype a b = true) (hv : Mem v a) : Mem v b :=
  mem_of_probe (has_of_isSubtype ha hb h (has_probe hv))

theorem isDisjoint_iff : isDisjoint a b = true ↔ ¬ ∃ v, Mem v a ∧ Mem v b := by
  simp only [isDisjoint]
  constructor
  · rintro hnever ⟨v, hv⟩
    have hmem := (mem_intersect ha hb).2 hv
    rw [isNever_iff.1 hnever] at hmem
    exact not_mem_never hmem
  · intro hnone
    by_contra hne
    obtain ⟨v, hv⟩ := (intersect_spec ha hb).1.exists_mem (by simpa using hne)
    exact hnone ⟨v, (mem_intersect ha hb).1 hv⟩

end Values

/-- Set semantics: for built types, unions and intersections are those of the sets of values,
subtypes are contained, and disjoint types are those without a common value. -/
theorem operations_on_values {a b : Ty} (ha : a.Built) (hb : b.Built) :
    (∀ v, Mem v (union a b) ↔ Mem v a ∨ Mem v b) ∧
      (∀ v, Mem v (intersect a b) ↔ Mem v a ∧ Mem v b) ∧
      (isSubtype a b = true → ∀ v, Mem v a → Mem v b) ∧
      (isDisjoint a b = true ↔ ¬ ∃ v, Mem v a ∧ Mem v b) := by
  have hpa := ha.proper
  have hpb := hb.proper
  refine ⟨fun v => mem_union hpa hpb, fun v => mem_intersect hpa hpb, ?_, isDisjoint_iff hpa hpb⟩
  intro h v hv
  exact mem_of_isSubtype hpa hpb h hv

theorem option_and_range_on_values :
    let option := enumOf "option" [("some", some int), ("none", none)]
    let range := interval (.closed 1) .unboundedAbove
    (∀ v, Mem v (union option range) ↔ Mem v option ∨ Mem v range) ∧
      (∀ v, Mem v (intersect option range) ↔ Mem v option ∧ Mem v range) ∧
      (isSubtype option range = true → ∀ v, Mem v option → Mem v range) ∧
      (isDisjoint option range = true ↔ ¬ ∃ v, Mem v option ∧ Mem v range) := by
  have hint : int ≠ .never := by
    intro h
    have hzero : Mem (.number (0 : ℤ)) int := mem_int_iff.2 ⟨0, rfl⟩
    rw [h] at hzero
    exact not_mem_never hzero
  have hoption : Built (enumOf "option" [("some", some int), ("none", none)]) :=
    built_enumOf (List.cons_ne_nil _ _) (by simp [built_int]) (by simp [hint])
  have hinterval : Built (interval (.closed 1) .unboundedAbove) :=
    built_interval (Bound.moderate_closed Number.holds_one (by decide))
      (Bound.moderate_of_infinite rfl)
  exact operations_on_values hoption hinterval

end Ty
end TypedFlow
