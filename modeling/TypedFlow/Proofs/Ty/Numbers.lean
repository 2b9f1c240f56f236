import TypedFlow.Builtin
import TypedFlow.Proofs.NumericSet.Standard
import TypedFlow.Proofs.Ty.Lattice
import TypedFlow.Ty.Equality

/-!
# Types of numbers

A type comprises some numbers if it is that of a canonical set of exactly these. Ranges, the
integers and unions are such types, so are the integers of such a type; and the type of any tight
set with the same numbers is equal to it.
-/
namespace TypedFlow

namespace Ty

open NumericSet (Fit fit_of_moderate ofParts_spec IntegerMem)

/-- The type of a canonical set of the numbers with a property, of which there are some. -/
def Comprises (t : Ty) (P : ℝ → Prop) : Prop :=
  ∃ s : NumericSet, s.Canonical ∧ (∃ x, s.Mem x) ∧ (∀ x, s.Mem x ↔ P x) ∧ t = ofNumericSet s

variable {t u : Ty} {P Q : ℝ → Prop} {s : NumericSet}

theorem Comprises.congr (h : t.Comprises P) (hPQ : ∀ x, P x ↔ Q x) : t.Comprises Q := by
  obtain ⟨s, hs, hx, hmem, heq⟩ := h
  exact ⟨s, hs, hx, fun x => (hmem x).trans (hPQ x), heq⟩

/-- The type of a set with a member is `number` if it has all numbers, and else shows the set. -/
theorem ofNumericSet_of_mem {x : ℝ} (hs : s.Tight) (hsound : s.Sound) (hx : s.Mem x) :
    (∀ y, s.Mem y) ∧ ofNumericSet s = .number ∨
      (¬ ∀ y, s.Mem y) ∧ ofNumericSet s = .numeric s := by
  have hne : s.isEmpty = false := by
    rw [← Bool.not_eq_true]
    exact fun h => NumericSet.not_mem_of_isEmpty h hx
  cases hall : s.isAllReals with
  | true =>
    exact .inl ⟨fun _ => NumericSet.mem_of_isAllReals hsound hall,
      by simp [ofNumericSet, hne, hall]⟩
  | false =>
    refine .inr ⟨fun h => ?_, by simp [ofNumericSet, hne, hall]⟩
    rw [NumericSet.isAllReals_of_members hs h] at hall
    cases hall

theorem ofNumericSet_of_all (hs : s.Canonical) (h : ∀ x, s.Mem x) : ofNumericSet s = .number := by
  rcases ofNumericSet_of_mem hs.toTight hs.toSound (h 0) with ⟨-, hof⟩ | ⟨hnot, -⟩
  · exact hof
  · exact absurd h hnot

/-- Equality is that of the numbers, also with the type of a set that is tight but not canonical. -/
theorem Comprises.beq (h : t.Comprises s.Mem) (hs : s.Tight) (hsound : s.Sound) :
    (t == ofNumericSet s) = true := by
  obtain ⟨a, ha, ⟨x, hx⟩, hmem, rfl⟩ := h
  change equal _ _ = true
  rcases ofNumericSet_of_mem ha.toTight ha.toSound hx with ⟨hall, hof⟩ | ⟨hall, hof⟩
  · rcases ofNumericSet_of_mem hs hsound ((hmem x).1 hx) with ⟨-, hof'⟩ | ⟨hall', -⟩
    · rw [hof, hof', equal]
    · exact absurd (fun y => (hmem y).1 (hall y)) hall'
  · rcases ofNumericSet_of_mem hs hsound ((hmem x).1 hx) with ⟨hall', -⟩ | ⟨-, hof'⟩
    · exact absurd (fun y => (hmem y).2 (hall' y)) hall
    · rw [hof, hof', equal]
      exact (NumericSet.beq_iff ha.toTight hs).2 hmem

section Makers
variable {reals integers : List Interval} {i : Interval}

theorem ofParts_regular (hr : ∀ i ∈ reals, i.Regular) (hi : ∀ i ∈ integers, i.Regular) :
    (NumericSet.ofParts reals integers).Canonical ∧
      ∀ x, (NumericSet.ofParts reals integers).Mem x ↔
        (∃ i ∈ reals, i.Mem x) ∨ IntegerMem integers x :=
  ⟨(NumericSet.Formed.ofParts hr hi).canonical, (ofParts_spec (fit_of_moderate
    (fun i h => (hr i h).toModerate) fun i h => (hi i h).toModerate)).2⟩

theorem ofInterval_spec (hi : i.Regular) :
    (NumericSet.ofInterval i).Canonical ∧ ∀ x, (NumericSet.ofInterval i).Mem x ↔ i.Mem x := by
  obtain ⟨hs, hmem⟩ := ofParts_regular (List.forall_mem_singleton.2 hi) (List.forall_mem_nil _)
  exact ⟨hs, fun x => (hmem x).trans (by simp [IntegerMem])⟩

theorem allReals_spec : NumericSet.allReals.Canonical ∧ ∀ x, NumericSet.allReals.Mem x := by
  obtain ⟨hs, hmem⟩ := ofInterval_spec Interval.regular_unbounded
  exact ⟨hs, fun x => (hmem x).2 (Interval.mem_unbounded x)⟩

theorem allIntegers_spec :
    NumericSet.allIntegers.Canonical ∧ ∀ x, NumericSet.allIntegers.Mem x ↔ ∃ z : ℤ, x = z := by
  obtain ⟨hs, hmem⟩ := ofParts_regular (List.forall_mem_nil _)
    (List.forall_mem_singleton.2 Interval.regular_unbounded)
  exact ⟨hs, fun x => (hmem x).trans (by simp [IntegerMem, Interval.mem_unbounded])⟩

theorem comprises_interval (hi : i.Regular) (hne : i.isEmpty = false) :
    (interval i.lower i.upper).Comprises i.Mem := by
  obtain ⟨x, hx⟩ := Interval.exists_mem hne
  obtain ⟨hs, hmem⟩ := ofInterval_spec hi
  exact ⟨_, hs, ⟨x, (hmem x).2 hx⟩, hmem, rfl⟩

theorem comprises_int : int.Comprises fun x => ∃ z : ℤ, x = z := by
  obtain ⟨hs, hmem⟩ := allIntegers_spec
  exact ⟨_, hs, ⟨_, (hmem _).2 ⟨0, rfl⟩⟩, hmem, rfl⟩

theorem comprises_number : number.Comprises fun _ => True := by
  obtain ⟨hs, hall⟩ := allReals_spec
  exact ⟨_, hs, ⟨0, hall 0⟩, fun x => iff_true_intro (hall x), (ofNumericSet_of_all hs hall).symm⟩

end Makers

section Operations

theorem union_numeric (a b : NumericSet) :
    (numeric a).union (.numeric b) = ofNumericSet (a.union b) := by
  simp only [union, unionAll, unionAt, flattenAll, flatten, List.append_nil, List.cons_append,
    List.nil_append, List.foldl_cons, List.foldl_nil, Gathered.add, Gathered.empty, Gathered.build,
    Gathered.memberList, Gathered.numericMembers, Option.elim, Option.map]
  cases h : ofNumericSet (a.union b) <;> simp

theorem Comprises.union (ht : t.Comprises P) (hu : u.Comprises Q) :
    (t.union u).Comprises fun x => P x ∨ Q x := by
  obtain ⟨a, ha, ⟨x, hx⟩, hP, rfl⟩ := ht
  obtain ⟨b, hb, ⟨y, hy⟩, hQ, rfl⟩ := hu
  have hab := NumericSet.canonical_union ha hb
  have hmem : ∀ z, (a.union b).Mem z ↔ a.Mem z ∨ b.Mem z :=
    fun z => NumericSet.mem_union ha.toSound hb.toSound
  refine ⟨a.union b, hab, ⟨x, (hmem x).2 (.inl hx)⟩,
    fun z => (hmem z).trans (or_congr (hP z) (hQ z)), ?_⟩
  -- all numbers win over any set of numbers
  rcases ofNumericSet_of_mem ha.toTight ha.toSound hx with ⟨hall, hofa⟩ | ⟨-, hofa⟩
  · rw [ofNumericSet_of_all hab fun z => (hmem z).2 (.inl (hall z)), hofa]
    rcases ofNumericSet_of_mem hb.toTight hb.toSound hy with ⟨-, hofb⟩ | ⟨-, hofb⟩
    · rw [hofb]
      rfl
    · rw [hofb]
      rfl
  · rcases ofNumericSet_of_mem hb.toTight hb.toSound hy with ⟨hall, hofb⟩ | ⟨-, hofb⟩
    · rw [ofNumericSet_of_all hab fun z => (hmem z).2 (.inr (hall z)), hofa, hofb]
      rfl
    · rw [hofa, hofb, union_numeric]

theorem Comprises.numericSet? (ht : t.Comprises P) :
    ∃ s : NumericSet, t.numericSet? = some s ∧ s.Canonical ∧ ∀ x, s.Mem x ↔ P x := by
  obtain ⟨a, ha, ⟨x, hx⟩, hP, rfl⟩ := ht
  rcases ofNumericSet_of_mem ha.toTight ha.toSound hx with ⟨hall, hof⟩ | ⟨-, hof⟩
  · obtain ⟨hs, hall'⟩ := allReals_spec
    rw [hof]
    exact ⟨_, rfl, hs, fun y => iff_of_true (hall' y) ((hP y).1 (hall y))⟩
  · rw [hof]
    exact ⟨a, rfl, ha, hP⟩

/-- The integers of a type of numbers, if there are any. -/
theorem Comprises.integersOf (ht : t.Comprises P) {w : ℤ} (hw : P w) :
    ∃ u : Ty, Builtin.integersOf t = .ok u ∧ u.Comprises fun x => P x ∧ ∃ z : ℤ, x = z := by
  obtain ⟨a, hset, ha, hP⟩ := ht.numericSet?
  obtain ⟨hb, hint⟩ := allIntegers_spec
  have hmem : ∀ x, (a.intersect .allIntegers).Mem x ↔ P x ∧ ∃ z : ℤ, x = z := fun x =>
    ((NumericSet.intersect_spec ha.toSound hb.toSound).2 x).trans (and_congr (hP x) (hint x))
  refine ⟨ofNumericSet (a.intersect .allIntegers), ?_, _, NumericSet.canonical_intersect ha hb,
    ⟨w, (hmem w).2 ⟨hw, w, rfl⟩⟩, hmem, rfl⟩
  have hoperand : Builtin.numericOperand Builtin.int.name t = .ok a := by
    rw [Builtin.numericOperand, hset]
  cases t with
  | any => cases hset
  | never => cases hset
  | _ => simp only [Builtin.integersOf, hoperand]; rfl

end Operations

end Ty
end TypedFlow
