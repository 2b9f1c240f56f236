import TypedFlow.Proofs.Interval.Arithmetic
import TypedFlow.Proofs.NumericSet.Containment
import TypedFlow.Proofs.NumericSet.Standard

/-!
# Arithmetic on numeric sets

As long as nothing is rounded, neither the ends of the results nor the steps of their normal form,
the results hold all that an operation makes of members of the operands. They hold more only where
several integers of one interval are treated as the real interval around them. Commutative
operations give equal sets when their operands change places.
-/
namespace TypedFlow.NumericSet

open Number (ExactSum ExactProduct)
open TypedFlow.Interval (Image ExactCorners)

variable {a b c s : NumericSet} {op : Interval → Interval → Interval} {f : ℝ → ℝ → ℝ} {x : ℝ}

/-- What an operation makes of every part of `a` with every part of `b`. -/
def results (op : Interval → Interval → Interval) (a b : NumericSet) : List (Interval × Bool) :=
  (pairs a b).map fun (x, y) => (op x.1 y.1, x.2 && y.2)

/-- The results of an operation are brought to normal form by exact steps. -/
def Settles (op : Interval → Interval → Interval) (a b : NumericSet) : Prop :=
  StepsExactly (((results op a b).filter (!·.2)).map (·.1))
    (((results op a b).filter (·.2)).map (·.1))

def SettlesEach (op : Interval → Interval) (a : NumericSet) : Prop :=
  StepsExactly (a.reals.map op) (a.integers.map op)

/-- Neither the sums of ends nor the steps of the normal form are rounded or overflow. -/
structure AddsExactly (a b : NumericSet) : Prop where
  sums : ∀ p ∈ a.parts, ∀ q ∈ b.parts, ExactSum p.1.lower.value q.1.lower.value ∧
    ExactSum p.1.upper.value q.1.upper.value
  settles : Settles .add a b

structure MultipliesExactly (a b : NumericSet) : Prop where
  products : ∀ p ∈ a.parts, ∀ q ∈ b.parts, ExactCorners p.1 q.1
  settles : Settles .mul a b

/-- Every integer interval holds a single integer. -/
def Scattered (a : NumericSet) : Prop := ∀ i ∈ a.integers, ∀ z w : ℤ, i.Mem z → i.Mem w → z = w

/-- No interval starts at the negative zero. -/
def StartsPlain (a : NumericSet) : Prop := ∀ p ∈ a.parts, p.1.lower.Plain

/-- A set holds what an operation makes of members. It has no real interval if the operands have
none, and if their integers stand alone it holds nothing else. -/
structure Reflects (f : ℝ → ℝ → ℝ) (a b c : NumericSet) : Prop where
  sound : ∀ x y, a.Mem x → b.Mem y → c.Mem (f x y)
  integral : a.isIntegral = true → b.isIntegral = true → c.isIntegral = true
  attained : a.Scattered → b.Scattered → ∀ s, c.Mem s → ∃ x y, a.Mem x ∧ b.Mem y ∧ f x y = s

/-- A set holds exactly what an operation makes of members. -/
structure ReflectsEach (g : ℝ → ℝ) (a c : NumericSet) : Prop where
  mem : ∀ s, c.Mem s ↔ ∃ x, a.Mem x ∧ g x = s
  integral : a.isIntegral = true → c.isIntegral = true

section Parts

theorem mem_results {part : Interval × Bool} : part ∈ results op a b ↔
    ∃ p ∈ a.parts, ∃ q ∈ b.parts, (op p.1 q.1, p.2 && q.2) = part := by
  simp only [results, pairs, List.mem_map, List.mem_flatMap]
  constructor
  · rintro ⟨_, ⟨p, hp, q, hq, rfl⟩, rfl⟩
    exact ⟨p, hp, q, hq, rfl⟩
  · rintro ⟨p, hp, q, hq, rfl⟩
    exact ⟨(p, q), ⟨p, hp, q, hq, rfl⟩, rfl⟩

theorem mem_parts {part : Interval × Bool} : part ∈ s.parts ↔
    part.2 = false ∧ part.1 ∈ s.reals ∨ part.2 = true ∧ part.1 ∈ s.integers := by
  obtain ⟨i, mark⟩ := part
  cases mark <;> simp [parts]

theorem mark_of_isIntegral (h : s.isIntegral = true) {part : Interval × Bool}
    (hp : part ∈ s.parts) : part.2 = true := by
  rcases mem_parts.1 hp with ⟨-, hi⟩ | ⟨hmark, -⟩
  · rw [List.isEmpty_iff.1 h] at hi
    cases hi
  · exact hmark

theorem Standard.nonempty (h : s.Standard) {part : Interval × Bool} (hp : part ∈ s.parts) :
    part.1.isEmpty = false := by
  rcases mem_parts.1 hp with ⟨-, hi⟩ | ⟨-, hi⟩
  · exact (h.fractional _ hi).nonempty
  · exact (h.integral _ hi).nonempty

/-- A part that holds a single integer holds no other real number. -/
theorem Standard.partMem (h : s.Standard) (hs : s.Scattered) {part : Interval × Bool}
    (hp : part ∈ s.parts) (hx : part.1.Mem x) : PartMem part x := by
  refine ⟨hx, fun hmark => ?_⟩
  rcases mem_parts.1 hp with ⟨hmark', -⟩ | ⟨-, hi⟩
  · rw [hmark] at hmark'
    cases hmark'
  · obtain ⟨z, hz, hzx⟩ := (h.integral _ hi).exists_le hx.1
    obtain ⟨w, hw, hxw⟩ := (h.integral _ hi).exists_ge hx.2
    obtain rfl := hs _ hi z w hz hw
    exact ⟨z, hxw.antisymm hzx⟩

theorem isIntegral_ofParts {reals integers : List Interval} (h : ∀ i, i ∉ reals) :
    (ofParts reals integers).isIntegral = true := by
  have hnone : ∀ i ∈ (ofParts reals integers).reals, i.EndsIn fun _ => False :=
    endsIn_reals (fun _ _ hb => hb) fun i hi => absurd hi (h i)
  apply List.isEmpty_iff.2
  exact List.eq_nil_iff_forall_not_mem.2 fun i hi => (hnone i hi).lower

end Parts

section Combine

/-- Each result has exactly the numbers that it should, and they are brought to normal form by
exact steps. -/
structure Faithful (f : ℝ → ℝ → ℝ) (op : Interval → Interval → Interval) (a b : NumericSet) :
    Prop where
  image : ∀ p ∈ a.parts, ∀ q ∈ b.parts, Image f p.1 q.1 (op p.1 q.1)
  settles : Settles op a b

theorem mem_combine (h : Faithful f op a b) (s : ℝ) : (combine op a b).Mem s ↔
    ∃ p ∈ a.parts, ∃ q ∈ b.parts,
      (∃ x y, p.1.Mem x ∧ q.1.Mem y ∧ f x y = s) ∧ ((p.2 && q.2) = true → ∃ z : ℤ, s = z) := by
  refine ((mem_ofParts h.settles s).trans (exists_ofMarked (results op a b) s)).trans ?_
  simp only [mem_results, PartMem]
  constructor
  · rintro ⟨_, ⟨p, hp, q, hq, rfl⟩, hs, hz⟩
    exact ⟨p, hp, q, hq, (h.image p hp q hq s).1 hs, hz⟩
  · rintro ⟨p, hp, q, hq, hs, hz⟩
    exact ⟨_, ⟨p, hp, q, hq, rfl⟩, (h.image p hp q hq s).2 hs, hz⟩

theorem isIntegral_combine (ha : a.isIntegral = true) (hb : b.isIntegral = true) :
    (combine op a b).isIntegral = true := by
  apply isIntegral_ofParts
  intro i hi
  obtain ⟨part, hpart, -⟩ := List.mem_map.1 hi
  obtain ⟨hpart, hmark⟩ := List.mem_filter.1 hpart
  obtain ⟨p, hp, q, hq, rfl⟩ := mem_results.1 hpart
  simp [mark_of_isIntegral ha hp, mark_of_isIntegral hb hq] at hmark

variable (ha : a.Standard) (hb : b.Standard)
include ha hb

theorem reflects_combine (h : Faithful f op a b) (hint : ∀ z w : ℤ, ∃ v : ℤ, f z w = v) :
    Reflects f a b (combine op a b) := by
  refine ⟨fun x y hx hy => ?_, isIntegral_combine, fun hsa hsb s hs => ?_⟩
  · obtain ⟨p, hp, hx, hxz⟩ := (mem_iff_parts a x).1 hx
    obtain ⟨q, hq, hy, hyz⟩ := (mem_iff_parts b y).1 hy
    refine (mem_combine h _).2 ⟨p, hp, q, hq, ⟨x, y, hx, hy, rfl⟩, fun hmark => ?_⟩
    obtain ⟨hmp, hmq⟩ := Bool.and_eq_true_iff.1 hmark
    obtain ⟨z, rfl⟩ := hxz hmp
    obtain ⟨w, rfl⟩ := hyz hmq
    exact hint z w
  · obtain ⟨p, hp, q, hq, ⟨x, y, hx, hy, hxy⟩, -⟩ := (mem_combine h s).1 hs
    exact ⟨x, y, (mem_iff_parts a x).2 ⟨p, hp, ha.partMem hsa hp hx⟩,
      (mem_iff_parts b y).2 ⟨q, hq, hb.partMem hsb hq hy⟩, hxy⟩

theorem faithful_add (h : a.AddsExactly b) : Faithful (· + ·) .add a b := by
  refine ⟨fun p hp q hq => ?_, h.settles⟩
  obtain ⟨hl, hu⟩ := h.sums p hp q hq
  exact Interval.image_add (ha.nonempty hp) (hb.nonempty hq) hl hu

theorem faithful_mul (h : a.MultipliesExactly b) : Faithful (· * ·) .mul a b := by
  refine ⟨fun p hp q hq => ?_, h.settles⟩
  exact Interval.image_mul (ha.nonempty hp) (hb.nonempty hq) (h.products p hp q hq)

theorem faithful_minimum (h : Settles .minimum a b) : Faithful min .minimum a b :=
  ⟨fun _ hp _ hq => Interval.image_minimum (ha.nonempty hp) (hb.nonempty hq), h⟩

theorem faithful_maximum (h : Settles .maximum a b) : Faithful max .maximum a b :=
  ⟨fun _ hp _ hq => Interval.image_maximum (ha.nonempty hp) (hb.nonempty hq), h⟩

theorem reflects_add (h : a.AddsExactly b) : Reflects (· + ·) a b (a.add b) :=
  reflects_combine ha hb (faithful_add ha hb h) fun z w => ⟨z + w, (Int.cast_add z w).symm⟩

theorem reflects_mul (h : a.MultipliesExactly b) : Reflects (· * ·) a b (a.mul b) :=
  reflects_combine ha hb (faithful_mul ha hb h) fun z w => ⟨z * w, (Int.cast_mul z w).symm⟩

theorem reflects_minimum (h : Settles .minimum a b) : Reflects min a b (a.minimum b) :=
  reflects_combine ha hb (faithful_minimum ha hb h) fun z w => ⟨min z w, Int.cast_min.symm⟩

theorem reflects_maximum (h : Settles .maximum a b) : Reflects max a b (a.maximum b) :=
  reflects_combine ha hb (faithful_maximum ha hb h) fun z w => ⟨max z w, Int.cast_max.symm⟩

end Combine

section Map
variable {op : Interval → Interval} {g : ℝ → ℝ}

theorem reflects_map (ha : a.Standard)
    (himage : ∀ i : Interval, i.isEmpty = false → ∀ s, (op i).Mem s ↔ ∃ x, i.Mem x ∧ g x = s)
    (h : SettlesEach op a) (hint : ∀ x, (∃ z : ℤ, g x = z) ↔ ∃ z : ℤ, x = z) :
    ReflectsEach g a (a.map op) := by
  have hreals := fun i hi => himage i (ha.fractional i hi).nonempty
  have hintegers := fun i hi => himage i (ha.integral i hi).nonempty
  refine ⟨fun s => (mem_ofParts h s).trans ?_, fun hintegral => isIntegral_ofParts fun i hi => ?_⟩
  · simp only [IntegerMem, List.mem_map]
    constructor
    · rintro (⟨_, ⟨i, hi, rfl⟩, hs⟩ | ⟨z, rfl, _, ⟨i, hi, rfl⟩, hs⟩)
      · obtain ⟨x, hx, hxs⟩ := (hreals i hi s).1 hs
        exact ⟨x, .inl ⟨i, hi, hx⟩, hxs⟩
      · obtain ⟨x, hx, hxz⟩ := (hintegers i hi z).1 hs
        obtain ⟨w, rfl⟩ := (hint x).1 ⟨z, hxz⟩
        exact ⟨w, .inr ⟨w, rfl, i, hi, hx⟩, hxz⟩
    · rintro ⟨x, ⟨i, hi, hx⟩ | ⟨w, rfl, i, hi, hw⟩, rfl⟩
      · exact .inl ⟨_, ⟨i, hi, rfl⟩, (hreals i hi _).2 ⟨x, hx, rfl⟩⟩
      · obtain ⟨z, hz⟩ := (hint w).2 ⟨w, rfl⟩
        exact .inr ⟨z, hz, _, ⟨i, hi, rfl⟩, (hintegers i hi z).2 ⟨w, hw, hz⟩⟩
  · rw [List.isEmpty_iff.1 hintegral] at hi
    cases hi

theorem reflects_neg (ha : a.Standard) (h : SettlesEach .neg a) : ReflectsEach (- ·) a a.neg := by
  refine reflects_map ha (fun i hi s => ?_) h fun x => ?_
  · rw [Interval.mem_neg (Interval.clean_of_isEmpty hi)]
    constructor
    · exact fun hs => ⟨-s, hs, neg_neg s⟩
    · rintro ⟨x, hx, rfl⟩
      rwa [neg_neg]
  · constructor
    · rintro ⟨z, hz⟩
      exact ⟨-z, by rw [Int.cast_neg, ← hz, neg_neg]⟩
    · rintro ⟨z, rfl⟩
      exact ⟨-z, (Int.cast_neg z).symm⟩

theorem reflects_abs (ha : a.Standard) (h : SettlesEach .abs a) : ReflectsEach (|·|) a a.abs := by
  refine reflects_map ha (fun i hi s => Interval.mem_abs hi) h fun x => ?_
  constructor
  · rintro ⟨z, hz⟩
    rcases abs_choice x with hx | hx
    · exact ⟨z, by rw [← hz, hx]⟩
    · exact ⟨-z, by rw [Int.cast_neg, ← hz, hx, neg_neg]⟩
  · rintro ⟨z, rfl⟩
    exact ⟨|z|, Int.cast_abs.symm⟩

section Opposites
variable (hb : b.Standard) (hneg : SettlesEach .neg b)
include hb hneg

/-- No real interval is a point at an integer, so that a listed integer is the opposite of one. -/
theorem exists_opposite {k : Interval} (hk : k ∈ b.neg.integers) {z : ℤ} (hz : k.Mem z) :
    ∃ i ∈ b.integers, i.Mem (-z : ℤ) := by
  obtain ⟨⟨k', hk', hz'⟩, -⟩ := ((lists_rest hneg).mem z).1 ⟨k, hk, hz⟩
  rcases ((lists_whole hneg).mem z).1 ⟨k', hk', hz'⟩ with ⟨_, hj, hz⟩ | ⟨_, hj, ⟨hne, hpoint⟩, -⟩
  · obtain ⟨i, hi, rfl⟩ := List.mem_map.1 hj
    rw [Interval.mem_neg (Interval.clean_of_isEmpty (hb.integral i hi).nonempty)] at hz
    exact ⟨i, hi, by rwa [Int.cast_neg]⟩
  · obtain ⟨i, hi, rfl⟩ := List.mem_map.1 hj
    obtain ⟨w, hl, hu⟩ := point_spec hne hpoint
    obtain ⟨x, hx, hxz⟩ := hb.fractional i hi
    have hmem : i.neg.Mem (-x) := by rwa [Interval.mem_neg hx.clean, neg_neg]
    have hxw : -x = w := le_antisymm (hu.ge_of_above hmem.2) (hl.le_of_below hmem.1)
    rw [neg_eq_iff_eq_neg, ← Int.cast_neg] at hxw
    exact absurd hxw (hxz (-w))

/-- Two integers in a row would have come from two in a row. -/
theorem scattered_neg (hsb : b.Scattered) : b.neg.Scattered := by
  have hstep : ∀ k ∈ b.neg.integers, ∀ z : ℤ, k.Mem z → ¬ k.Mem (z + 1 : ℤ) := by
    intro k hk z hz hz'
    obtain ⟨i, hi, hiz⟩ := exists_opposite hb hneg hk hz
    obtain ⟨j, hj, hjz⟩ := exists_opposite hb hneg hk hz'
    obtain rfl := eq_of_near hb.spaced hi hj hiz hjz (by omega) (by omega)
    have heq := hsb i hi _ _ hiz hjz
    omega
  intro k hk z w hz hw
  rcases lt_trichotomy z w with hlt | heq | hlt
  · exact absurd ⟨hz.1.mono (by simp), hw.2.mono (Int.cast_le.2 hlt)⟩ (hstep k hk z hz)
  · exact heq
  · exact absurd ⟨hw.1.mono (by simp), hz.2.mono (Int.cast_le.2 hlt)⟩ (hstep k hk w hw)

theorem reflects_sub (ha : a.Standard) (h : a.AddsExactly b.neg) :
    Reflects (· - ·) a b (a.sub b) := by
  have hopposite := reflects_neg hb hneg
  have hadd := reflects_add ha ⟨_, _, rfl⟩ h
  refine ⟨fun x y hx hy => ?_, fun hia hib => hadd.integral hia (hopposite.integral hib), ?_⟩
  · have hsum := hadd.sound x (-y) hx ((hopposite.mem (-y)).2 ⟨y, hy, rfl⟩)
    rwa [← sub_eq_add_neg] at hsum
  · intro hsa hsb s hs
    obtain ⟨x, y', hx, hy', hxy⟩ := hadd.attained hsa (scattered_neg hb hneg hsb) s hs
    obtain ⟨y, hy, rfl⟩ := (hopposite.mem y').1 hy'
    exact ⟨x, y, hx, hy, by rw [← hxy, sub_eq_add_neg]⟩

end Opposites

end Map

section Swap

theorem plain_mulBound {l m : Bound} (hl : l.value.isNan = false) (hm : m.value.isNan = false)
    (h : ExactProduct l.value m.value) : (Interval.mulBound l m).Plain := by
  simp only [Interval.mulBound]
  by_cases hpl : l.value.place = 0
  · rw [if_pos ((Interval.beq_zero_iff hl).2 hpl)]
    exact Number.zero_ne_neg_zero
  · rw [if_neg fun heq => hpl ((Interval.beq_zero_iff hl).1 heq)]
    by_cases hpm : m.value.place = 0
    · rw [if_pos ((Interval.beq_zero_iff hm).2 hpm)]
      exact Number.zero_ne_neg_zero
    · rw [if_neg fun heq => hpm ((Interval.beq_zero_iff hm).1 heq)]
      exact Number.mul_ne_neg_zero hl hm h hpl hpm

/-- No product starts at the negative zero, whatever the ends of the factors are. -/
theorem plain_mul {i j : Interval} (hi : i.Clean) (hj : j.Clean) (h : ExactCorners i j) :
    (i.mul j).lower.Plain := by
  have hll := plain_mulBound hi.lower hj.lower h.lowerLower
  have hlu := plain_mulBound hi.lower hj.upper h.lowerUpper
  have hul := plain_mulBound hi.upper hj.lower h.upperLower
  have huu := plain_mulBound hi.upper hj.upper h.upperUpper
  exact Bound.looserLower_of_both (Bound.looserLower_of_both
    (Bound.looserLower_of_both hll hlu) hul) huu

def ResultsPlain (op : Interval → Interval → Interval) (a b : NumericSet) : Prop :=
  ∀ p ∈ a.parts, ∀ q ∈ b.parts, (op p.1 q.1).lower.Plain

theorem tight_combine (h : Settles op a b) (hplain : ResultsPlain op a b) :
    (combine op a b).Tight := by
  apply tight_ofParts h
  intro i hi
  obtain ⟨part, hpart, rfl⟩ := List.mem_map.1 hi
  obtain ⟨p, hp, q, hq, rfl⟩ := mem_results.1 (List.mem_filter.1 hpart).1
  exact hplain p hp q hq

theorem mem_combine_of_swapped (hf : ∀ x y, f x y = f y x) (hab : Faithful f op a b)
    (hba : Faithful f op b a) (h : (combine op a b).Mem x) : (combine op b a).Mem x := by
  obtain ⟨p, hp, q, hq, ⟨y, z, hy, hz, rfl⟩, hmark⟩ := (mem_combine hab x).1 h
  rw [Bool.and_comm] at hmark
  exact (mem_combine hba _).2 ⟨q, hq, p, hp, ⟨z, y, hz, hy, hf z y⟩, hmark⟩

/-- Both orders give a set that is determined by its members. -/
theorem combine_swapped (hf : ∀ x y, f x y = f y x) (hab : Faithful f op a b)
    (hba : Faithful f op b a) (hplain : ResultsPlain op a b) (hplain' : ResultsPlain op b a) :
    (combine op a b == combine op b a) = true :=
  beq_of_members (tight_combine hab.settles hplain) (tight_combine hba.settles hplain')
    (fun _ => mem_combine_of_swapped hf hab hba) fun _ => mem_combine_of_swapped hf hba hab

section Starts
variable (ha : a.StartsPlain) (hb : b.StartsPlain)
include ha hb

theorem plain_add : ResultsPlain .add a b :=
  fun p hp q hq => Number.add_ne_neg_zero (ha p hp) (hb q hq)

theorem plain_minimum : ResultsPlain .minimum a b :=
  fun p hp q hq => Bound.looserLower_of_both (ha p hp) (hb q hq)

theorem plain_maximum : ResultsPlain .maximum a b :=
  fun p hp q hq => Bound.tighterLower_of_both (ha p hp) (hb q hq)

end Starts

variable (ha : a.Standard) (hb : b.Standard)
include ha hb

theorem add_swapped (hpa : a.StartsPlain) (hpb : b.StartsPlain) (hab : a.AddsExactly b)
    (hba : b.AddsExactly a) : (a.add b == b.add a) = true :=
  combine_swapped add_comm (faithful_add ha hb hab) (faithful_add hb ha hba) (plain_add hpa hpb)
    (plain_add hpb hpa)

theorem mul_swapped (hab : a.MultipliesExactly b) (hba : b.MultipliesExactly a) :
    (a.mul b == b.mul a) = true := by
  have hplain : ∀ {a b : NumericSet}, a.Standard → b.Standard → a.MultipliesExactly b →
      ResultsPlain .mul a b := fun ha hb h p hp q hq =>
    plain_mul (Interval.clean_of_isEmpty (ha.nonempty hp))
      (Interval.clean_of_isEmpty (hb.nonempty hq)) (h.products p hp q hq)
  exact combine_swapped mul_comm (faithful_mul ha hb hab) (faithful_mul hb ha hba)
    (hplain ha hb hab) (hplain hb ha hba)

theorem minimum_swapped (hpa : a.StartsPlain) (hpb : b.StartsPlain) (hab : Settles .minimum a b)
    (hba : Settles .minimum b a) : (a.minimum b == b.minimum a) = true :=
  combine_swapped min_comm (faithful_minimum ha hb hab) (faithful_minimum hb ha hba)
    (plain_minimum hpa hpb) (plain_minimum hpb hpa)

theorem maximum_swapped (hpa : a.StartsPlain) (hpb : b.StartsPlain) (hab : Settles .maximum a b)
    (hba : Settles .maximum b a) : (a.maximum b == b.maximum a) = true :=
  combine_swapped max_comm (faithful_maximum ha hb hab) (faithful_maximum hb ha hba)
    (plain_maximum hpa hpb) (plain_maximum hpb hpa)

end Swap

end TypedFlow.NumericSet
