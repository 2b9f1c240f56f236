import TypedFlow.Proofs.Ty.Algebra
import TypedFlow.Proofs.Ty.Exactness

/-!
# Types form a distributive lattice

`Formed` are the types that the constructors and `unionAll` make from intervals whose finite ends
are moderate and not the negative zero, with nothing empty inside. They are normal, so that one is
a subtype of another exactly if it has fewer probes; unions and intersections are those of the
probes, and the laws of subtyping are those of sets.
-/
namespace TypedFlow

section Regular

theorem Bound.plain_of_infinite {b : Bound} (h : b.isFinite = false) : b.Plain := by
  intro heq
  rw [isFinite, heq] at h
  cases h

theorem Bound.plain_closed {a : Number} {z : ℤ} (h : a.Holds z) (hz : z ≠ 0) :
    (closed a).Plain := by
  intro heq
  have hposition := h.position
  rw [show a = -.zero from heq] at hposition
  have hzero : (0 : ℤ) = z * Number.unitsPerOne := Option.some.inj hposition
  have hpos := Number.unitsPerOne_pos
  exact Int.mul_ne_zero hz (by omega) hzero.symm

/-- Moderate ends, neither of them the negative zero. -/
structure Interval.Regular (i : Interval) : Prop extends i.Moderate where
  plainLower : i.lower.Plain
  plainUpper : i.upper.Plain

theorem Interval.regular_unbounded : unbounded.Regular where
  toModerate := moderate_unbounded
  plainLower := Bound.plain_of_infinite rfl
  plainUpper := Bound.plain_of_infinite rfl

end Regular

/-- Sets of numbers made from regular intervals. -/
inductive NumericSet.Formed : NumericSet → Prop
  | ofParts {reals integers : List Interval} (real : ∀ i ∈ reals, i.Regular)
      (integer : ∀ i ∈ integers, i.Regular) : Formed (ofParts reals integers)
  | union {a b : NumericSet} (left : Formed a) (right : Formed b) : Formed (a.union b)
  | intersect {a b : NumericSet} (left : Formed a) (right : Formed b) : Formed (a.intersect b)

theorem NumericSet.Formed.canonical {set : NumericSet} (h : set.Formed) : set.Canonical := by
  induction h with
  | ofParts real integer =>
    refine canonical_ofParts ⟨fun i hi _ => ?_, fun i hi => ?_⟩ fun i hi => (real i hi).plainLower
    · exact ⟨(real i hi).lower, (real i hi).upper⟩
    · exact ⟨.inl (integer i hi).lower, .inl (integer i hi).upper⟩
  | union _ _ ihl ihr => exact canonical_union ihl ihr
  | intersect _ _ ihl ihr => exact canonical_intersect ihl ihr

namespace Ty

/-- The types that the constructors and `unionAll` make: a numeric type wraps a set through
`ofNumericSet`, the fields of a struct have different names, an enum has a variant, and neither a
field nor a payload is `never`. -/
inductive Formed : Ty → Prop
  | any : Formed .any
  | never : Formed .never
  | number : Formed .number
  | string : Formed .string
  | stringLiteral (content : String) : Formed (.stringLiteral content)
  | ofNumericSet {set : NumericSet} (formed : set.Formed) : Formed (ofNumericSet set)
  | struct {name : String} {fields : List (String × Ty)} (distinct : (fields.map (·.1)).Nodup)
      (formed : ∀ entry ∈ fields, Formed entry.2) (inhabited : ∀ entry ∈ fields, entry.2 ≠ .never) :
      Formed (.struct name fields)
  | enumOf {name : String} {variants : List (String × Option Ty)} (nonempty : variants ≠ [])
      (formed : ∀ entry ∈ Entries.ofList variants, ∀ t, entry.2 = some t → Formed t)
      (inhabited : ∀ entry ∈ Entries.ofList variants, ∀ t, entry.2 = some t → t ≠ .never) :
      Formed (enumOf name variants)
  | unionAll {types : List Ty} (formed : ∀ t ∈ types, Formed t) : Formed (unionAll types)

section Constructors
variable {lower upper : Bound}

theorem formed_literal {value : Number} (h : (Interval.point value).Regular) :
    Formed (literal value) := by
  simp only [literal]
  split
  · exact .never
  · exact .ofNumericSet (.ofParts (by simpa using h) (by simp))

theorem formed_interval (h : Interval.Regular ⟨lower, upper⟩) : Formed (interval lower upper) :=
  .ofNumericSet (.ofParts (by simpa using h) (by simp))

theorem formed_intInterval (h : Interval.Regular ⟨lower, upper⟩) :
    Formed (intInterval lower upper) :=
  .ofNumericSet (.ofParts (by simp) (by simpa using h))

theorem formed_int : Formed int :=
  .ofNumericSet (.ofParts (by simp) (by simpa using Interval.regular_unbounded))

theorem formed_enumOf {name : String} {variants : List (String × Option Ty)}
    (nonempty : variants ≠ []) (formed : ∀ entry ∈ variants, ∀ t, entry.2 = some t → Formed t)
    (inhabited : ∀ entry ∈ variants, ∀ t, entry.2 = some t → t ≠ .never) :
    Formed (enumOf name variants) :=
  .enumOf nonempty (fun entry hentry => formed entry (Entries.mem_of_mem_ofList hentry))
    fun entry hentry => inhabited entry (Entries.mem_of_mem_ofList hentry)

end Constructors

section Normal
variable {a b : Ty}

theorem normal_ofNumericSet {set : NumericSet} (h : set.Canonical) : (ofNumericSet set).Normal where
  proper := (ofNumericSet_spec h.toSound).1
  reduced := reduced_ofNumericSet h

theorem normal_unionAll {types : List Ty} (h : ∀ t ∈ types, t.Normal) : (unionAll types).Normal where
  proper := (unionAll_spec fun t ht => (h t ht).proper).1
  reduced := reduced_unionAll fun t ht => (h t ht).reduced

theorem normal_union (ha : a.Normal) (hb : b.Normal) : (union a b).Normal :=
  normal_unionAll (by simp [ha, hb])

theorem normal_intersect (ha : a.Normal) (hb : b.Normal) : (intersect a b).Normal where
  proper := (intersect_spec ha.proper hb.proper).1
  reduced := reduced_intersect ha.reduced hb.reduced

theorem Formed.normal {t : Ty} (h : t.Formed) : t.Normal := by
  induction h with
  | any => exact ⟨.any, .any⟩
  | never => exact ⟨.never, .never⟩
  | number => exact ⟨.number, .number⟩
  | string => exact ⟨.string, .string⟩
  | stringLiteral content => exact ⟨.stringLiteral content, .stringLiteral content⟩
  | ofNumericSet formed => exact normal_ofNumericSet formed.canonical
  | struct distinct _ inhabited ih =>
    exact ⟨.struct distinct (fun entry hentry => (ih entry hentry).proper)
      fun entry hentry => isNever_eq_false (inhabited entry hentry),
      .struct fun entry hentry => (ih entry hentry).reduced⟩
  | enumOf nonempty _ inhabited ih =>
    exact ⟨.enum (Entries.ofList_ne_nil nonempty) (Entries.ascending_ofList _)
      (fun entry hentry t ht => (ih entry hentry t ht).proper)
      fun entry hentry t ht => isNever_eq_false (inhabited entry hentry t ht),
      .enum fun entry hentry t ht => (ih entry hentry t ht).reduced⟩
  | unionAll _ ih => exact normal_unionAll ih

end Normal

section Laws
variable {a b c : Ty} (ha : a.Normal) (hb : b.Normal) (hc : c.Normal)

include ha in
theorem isSubtype_refl : isSubtype a a = true := isSubtype_of_has ha ha fun _ hv => hv

include ha hb hc

theorem isSubtype_trans (hab : isSubtype a b = true) (hbc : isSubtype b c = true) :
    isSubtype a c = true := by
  rw [isSubtype_iff ha hb] at hab
  rw [isSubtype_iff hb hc] at hbc
  exact isSubtype_of_has ha hc fun v hv => hbc v (hab v hv)

/-- A union is a subtype of what both sides are subtypes of, and of nothing else. -/
theorem union_isSubtype_iff :
    isSubtype (union a b) c = true ↔ isSubtype a c = true ∧ isSubtype b c = true := by
  rw [isSubtype_iff (normal_union ha hb) hc, isSubtype_iff ha hc, isSubtype_iff hb hc]
  simp only [has_union ha.proper hb.proper, or_imp, forall_and]

theorem isSubtype_intersect_iff :
    isSubtype c (intersect a b) = true ↔ isSubtype c a = true ∧ isSubtype c b = true := by
  rw [isSubtype_iff hc (normal_intersect ha hb), isSubtype_iff hc ha, isSubtype_iff hc hb]
  simp only [(intersect_spec ha.proper hb.proper).2, imp_and, forall_and]

theorem has_distributed {v : Probe} : Has v (intersect a (union b c)) ↔
    Has v (union (intersect a b) (intersect a c)) := by
  have hbc := normal_union hb hc
  have hab := normal_intersect ha hb
  have hac := normal_intersect ha hc
  rw [(intersect_spec ha.proper hbc.proper).2, has_union hb.proper hc.proper,
    has_union hab.proper hac.proper, (intersect_spec ha.proper hb.proper).2,
    (intersect_spec ha.proper hc.proper).2, and_or_left]

end Laws

/-- Subtyping is a preorder of which unions are the joins and intersections the meets, and meets
distribute over joins. -/
theorem subtypes_form_distributive_lattice {a b c : Ty} (ha : a.Formed) (hb : b.Formed)
    (hc : c.Formed) :
    isSubtype a a = true ∧
      (isSubtype a b = true → isSubtype b c = true → isSubtype a c = true) ∧
      isSubtype a (union a b) = true ∧ isSubtype b (union a b) = true ∧
      (isSubtype a c = true → isSubtype b c = true → isSubtype (union a b) c = true) ∧
      isSubtype (intersect a b) a = true ∧ isSubtype (intersect a b) b = true ∧
      (isSubtype c a = true → isSubtype c b = true → isSubtype c (intersect a b) = true) ∧
      isSubtype (intersect a (union b c)) (union (intersect a b) (intersect a c)) = true ∧
      isSubtype (union (intersect a b) (intersect a c)) (intersect a (union b c)) = true := by
  have na := ha.normal
  have nb := hb.normal
  have nc := hc.normal
  have hjoin := normal_union na nb
  have hmeet := normal_intersect na nb
  have hleft := normal_intersect na (normal_union nb nc)
  have hright := normal_union hmeet (normal_intersect na nc)
  obtain ⟨hal, hbl⟩ := (union_isSubtype_iff na nb hjoin).1 (isSubtype_refl hjoin)
  obtain ⟨hla, hlb⟩ := (isSubtype_intersect_iff na nb hmeet).1 (isSubtype_refl hmeet)
  refine ⟨isSubtype_refl na, isSubtype_trans na nb nc, hal, hbl, ?_, hla, hlb, ?_, ?_, ?_⟩
  · exact fun hac hbc => (union_isSubtype_iff na nb nc).2 ⟨hac, hbc⟩
  · exact fun hca hcb => (isSubtype_intersect_iff na nb nc).2 ⟨hca, hcb⟩
  · exact isSubtype_of_has hleft hright fun v => (has_distributed na nb nc).1
  · exact isSubtype_of_has hright hleft fun v => (has_distributed na nb nc).2

theorem option_range_and_pair_laws :
    let option := enumOf "option" [("some", some int), ("none", none)]
    let range := unionAll [interval (.closed 1) .unboundedAbove, stringLiteral "on"]
    let pair := struct "pair" [("left", option), ("right", number)]
    isSubtype option option = true ∧
      (isSubtype option range = true → isSubtype range pair = true →
        isSubtype option pair = true) ∧
      isSubtype option (union option range) = true ∧ isSubtype range (union option range) = true ∧
      (isSubtype option pair = true → isSubtype range pair = true →
        isSubtype (union option range) pair = true) ∧
      isSubtype (intersect option range) option = true ∧
      isSubtype (intersect option range) range = true ∧
      (isSubtype pair option = true → isSubtype pair range = true →
        isSubtype pair (intersect option range) = true) ∧
      isSubtype (intersect option (union range pair))
        (union (intersect option range) (intersect option pair)) = true ∧
      isSubtype (union (intersect option range) (intersect option pair))
        (intersect option (union range pair)) = true := by
  have hint : int ≠ .never := by
    intro h
    have hzero : Mem (.number (0 : ℤ)) int := mem_int_iff.2 ⟨0, rfl⟩
    rw [h] at hzero
    exact not_mem_never hzero
  have hoption : Formed (enumOf "option" [("some", some int), ("none", none)]) :=
    formed_enumOf (List.cons_ne_nil _ _) (by simp [formed_int]) (by simp [hint])
  have hends : Interval.Regular ⟨.closed 1, .unboundedAbove⟩ :=
    ⟨⟨Bound.moderate_closed Number.holds_one (by decide), Bound.moderate_of_infinite rfl⟩,
      Bound.plain_closed Number.holds_one one_ne_zero, Bound.plain_of_infinite rfl⟩
  have hrange : Formed (unionAll [interval (.closed 1) .unboundedAbove, stringLiteral "on"]) :=
    .unionAll (by simp [formed_interval hends, Formed.stringLiteral])
  have hpair : Formed (struct "pair" [("left", enumOf "option" [("some", some int), ("none", none)]),
      ("right", number)]) := by
    refine .struct (by simp) ?_ ?_
    · simp [hoption, Formed.number]
    · simp [enumOf]
  exact subtypes_form_distributive_lattice hoption hrange hpair

end Ty
end TypedFlow
