import TypedFlow.Proofs.Expr.Numeric
import TypedFlow.Proofs.NumericSet.Tightness
import TypedFlow.Proofs.Scope.Prelude
import TypedFlow.Proofs.Ty.Numbers
import TypedFlow.Ty.Text

/-!
# Reading back numeric types

The expression of a numeric set denotes the type of its numbers wherever the name of the integers
has its meaning: each part denotes the type of its own numbers, and the bars join them. So the text
of a numeric type is evaluated to a type that is equal to it, unless two real intervals of the set
touch; which of the two zeros an end is at is not shown and makes no difference.
-/
namespace TypedFlow

section Shown

namespace Number

theorem position?_shown (a : Number) : a.shown.position? = a.position? := by
  cases a with
  | nan => rfl
  | infinite negative => rfl
  | finite negative x =>
    cases negative with
    | false => simp [shown, showsSign]
    | true =>
      by_cases hzero : x.units = 0
      · simp [shown, showsSign, position?, signed, hzero]
      · have hsign : (x.units != 0) = true := bne_iff_ne.2 hzero
        simp [shown, showsSign, hsign]

theorem place_shown (a : Number) : a.shown.place = a.place := by
  rw [place, place, position?_shown]

theorem isFinite_shown (a : Number) : a.shown.isFinite = a.isFinite := by
  cases a <;> rfl

theorem isNan_shown (a : Number) : a.shown.isNan = a.isNan := by
  cases a <;> rfl

/-- The negative zero is never shown. -/
theorem shown_ne_neg_zero (a : Number) : a.shown ≠ -.zero := by
  cases a with
  | nan => rintro ⟨⟩
  | infinite negative => rintro ⟨⟩
  | finite negative x =>
    intro h
    have hparts : finite (showsSign (finite negative x)) x = finite true ⟨0, onGrid_zero⟩ := h
    injection hparts with hsign hsize
    simp [showsSign, hsize] at hsign

end Number

namespace Bound
variable {b : Bound}

/-- The end that a text shows. -/
def shown (b : Bound) : Bound := of b.value.shown b.inclusive

theorem inclusive_shown (b : Bound) : b.shown.inclusive = b.inclusive := by
  cases hincl : b.inclusive with
  | false => simp [shown, of, hincl]
  | true => simp [shown, of, hincl, Number.isFinite_shown, b.finite_of_inclusive hincl]

theorem lowerCut_shown (b : Bound) : b.shown.lowerCut = b.lowerCut := by
  rw [lowerCut, lowerCut, inclusive_shown, shown, of, Number.place_shown]

theorem upperCut_shown (b : Bound) : b.shown.upperCut = b.upperCut := by
  rw [upperCut, upperCut, inclusive_shown, shown, of, Number.place_shown]

theorem Moderate.shown (h : b.Moderate) : b.shown.Moderate := by
  intro p hf hp
  exact h p ((Number.isFinite_shown b.value).symm.trans hf)
    ((Number.position?_shown b.value).symm.trans hp)

theorem plain_shown (b : Bound) : b.shown.Plain := b.value.shown_ne_neg_zero

theorem exists_infinite (hb : b.value.isNan = false) (hf : b.isFinite = false) :
    ∃ negative, b.value = .infinite negative := by
  simp only [isFinite] at hf
  cases hv : b.value with
  | nan =>
    rw [hv] at hb
    cases hb
  | infinite negative => exact ⟨negative, rfl⟩
  | finite negative size =>
    rw [hv] at hf
    cases hf

theorem Below.eq_negInfinity {x : ℝ} (h : b.Below x) (hf : b.isFinite = false) :
    b.value = .negInfinity := by
  obtain ⟨negative, hv⟩ := exists_infinite h.1 hf
  have hle := h.place_le
  rw [hv, Number.place_infinite] at hle
  cases negative with
  | true => exact hv
  | false => exact absurd hle (not_le.2 (EReal.coe_lt_top x))

theorem Above.eq_infinity {x : ℝ} (h : b.Above x) (hf : b.isFinite = false) :
    b.value = .infinity := by
  obtain ⟨negative, hv⟩ := exists_infinite h.1 hf
  have hle := h.le_place
  rw [hv, Number.place_infinite] at hle
  cases negative with
  | false => exact hv
  | true => exact absurd hle (not_le.2 (EReal.bot_lt_coe x))

/-- The end of the range that a text shows; `v` is the infinity that is left out. -/
theorem elim_number? {v : Number} (hv : v.shown = v) (h : b.isFinite = false → b.value = v) :
    (b.number?.map Number.shown).elim (of v false) (of · b.unmarked) = b.shown := by
  cases hf : b.isFinite with
  | true => simp [number?, unmarked, shown, hf]
  | false =>
    have hincl : b.inclusive = false := by
      rw [← Bool.not_eq_true]
      intro hincl
      rw [isFinite, b.finite_of_inclusive hincl] at hf
      cases hf
    simp [number?, shown, hf, hincl, h hf, hv]

end Bound

namespace Interval
variable {i j : Interval} {x : ℝ}

/-- The interval that a text shows. -/
def shown (i : Interval) : Interval := ⟨i.lower.shown, i.upper.shown⟩

theorem mem_congr (hi : i.Clean) (hj : j.Clean) (hl : i.lower.lowerCut = j.lower.lowerCut)
    (hu : i.upper.upperCut = j.upper.upperCut) (x : ℝ) : i.Mem x ↔ j.Mem x := by
  rw [mem_iff hi, mem_iff hj, hl, hu]

theorem mem_shown (h : i.isEmpty = false) (x : ℝ) : i.shown.Mem x ↔ i.Mem x := by
  have hclean := clean_of_isEmpty h
  exact mem_congr ⟨(Number.isNan_shown _).trans hclean.lower,
    (Number.isNan_shown _).trans hclean.upper⟩ hclean (Bound.lowerCut_shown _)
    (Bound.upperCut_shown _) x

theorem Moderate.shown (h : i.Moderate) : i.shown.Regular where
  lower := h.lower.shown
  upper := h.upper.shown
  plainLower := i.lower.plain_shown
  plainUpper := i.upper.plain_shown

theorem isEmpty_shown (h : i.isEmpty = false) : i.shown.isEmpty = false := by
  obtain ⟨x, hx⟩ := exists_mem h
  exact isEmpty_of_mem ((mem_shown h x).2 hx)

theorem rangeType_literal (h : i.isEmpty = false) :
    Evaluation.rangeType i.literal.shown = .interval i.shown.lower i.shown.upper := by
  obtain ⟨x, hl, hu⟩ := exists_mem h
  exact congrArg₂ Ty.interval (Bound.elim_number? rfl hl.eq_negInfinity)
    (Bound.elim_number? rfl hu.eq_infinity)

theorem point_shown (h : i.isPoint = true) :
    point i.lower.value.shown = ⟨i.lower.shown, i.lower.shown⟩ := by
  simp only [point, Bound.closed, Bound.shown, (inclusive_of_isPoint h).1]

/-- The members of a point are those of the number that is shown for it. -/
theorem mem_point_shown (h : i.isPoint = true) (x : ℝ) :
    (point i.lower.value.shown).Mem x ↔ i.Mem x := by
  have hpoint := point_shown h
  obtain ⟨hl, hu⟩ := inclusive_of_isPoint h
  simp only [isPoint, Bool.and_eq_true, Bool.not_eq_true'] at h
  obtain ⟨hne, heq⟩ := h
  have hclean := clean_of_isEmpty hne
  have hplace := (Number.beq_iff hclean.lower hclean.upper).1 heq
  have hnan := (Number.isNan_shown i.lower.value).trans hclean.lower
  rw [hpoint]
  refine mem_congr ⟨hnan, hnan⟩ hclean (Bound.lowerCut_shown _) ?_ x
  rw [Bound.upperCut_shown, Bound.upperCut, Bound.upperCut, hl, hu, hplace]

/-- A point of integers is an integer. -/
theorem Integral.mem_point (hi : i.Integral) (h : i.isPoint = true) {x : ℝ} (hx : i.Mem x) :
    ∃ z : ℤ, x = z := by
  obtain ⟨hl, hu⟩ := inclusive_of_isPoint h
  simp only [isPoint, Bool.and_eq_true] at h
  have hplace := (Number.beq_iff hx.1.1 hx.2.1).1 h.2
  obtain ⟨z, hz⟩ := hi.lower (i.lower.finite_of_inclusive hl)
  have hle := hx.2.le_place
  rw [← hplace, hz.holds.place_eq, EReal.coe_le_coe_iff] at hle
  exact ⟨z, le_antisymm hle (hz.le_of_below hx.1)⟩

theorem mem_of_beq_unbounded (hi : i.Clean) (h : (i == .unbounded) = true) (x : ℝ) : i.Mem x := by
  have hends := (NumericSet.beq_iff_ends hi ⟨rfl, rfl⟩).1 h
  exact (mem_congr hi ⟨rfl, rfl⟩ (congrArg Prod.fst hends) (congrArg Prod.snd hends) x).2
    (mem_unbounded x)

end Interval

end Shown

section Denotations
open Evaluation

/-- Without bindings, and without opening any body, the expression is evaluated to the type of the
numbers with a property. -/
def Expr.Denotes (e : Expr) (scope : Scope) (P : ℝ → Prop) : Prop :=
  ∃ t : Ty, t.Comprises P ∧ ∀ limit inBody, evaluateExpr limit inBody scope [] e = pure t

variable {scope holder : Scope} {e e' : Expr} {P Q : ℝ → Prop} {i : Interval} {s : NumericSet}

theorem Expr.Denotes.congr (h : e.Denotes scope P) (hPQ : ∀ x, P x ↔ Q x) : e.Denotes scope Q := by
  obtain ⟨t, ht, heval⟩ := h
  exact ⟨t, ht.congr hPQ, heval⟩

theorem Expr.Denotes.union (h : e.Denotes scope P) (h' : e'.Denotes scope Q) :
    (Expr.binary .union e e').Denotes scope fun x => P x ∨ Q x := by
  obtain ⟨t, ht, heval⟩ := h
  obtain ⟨u, hu, heval'⟩ := h'
  refine ⟨t.union u, ht.union hu, fun limit inBody => ?_⟩
  rw [evaluateExpr, heval, pure_bind, heval', pure_bind]
  rfl

theorem denotes_foldl_union {exprs : List Expr} {properties : List (ℝ → Prop)}
    (h : List.Forall₂ (Expr.Denotes · scope ·) exprs properties) {first : Expr}
    (hfirst : first.Denotes scope P) :
    (exprs.foldl (.binary .union) first).Denotes scope fun x => P x ∨ ∃ Q ∈ properties, Q x := by
  induction h generalizing first P with
  | nil => exact hfirst.congr fun x => by simp
  | cons he _ ih =>
    refine (ih (hfirst.union he)).congr fun x => ?_
    simp only [List.mem_cons, exists_eq_or_imp, or_assoc]

theorem denotes_unionOf {exprs : List Expr} {properties : List (ℝ → Prop)}
    (h : List.Forall₂ (Expr.Denotes · scope ·) exprs properties) (hne : exprs ≠ []) :
    (Expr.unionOf exprs).Denotes scope fun x => ∃ Q ∈ properties, Q x := by
  cases h with
  | nil => exact absurd rfl hne
  | cons hfirst hrest =>
    refine (denotes_foldl_union hrest hfirst).congr fun x => ?_
    simp only [List.mem_cons, exists_eq_or_imp]

/-- Where no body is opened, levels do not matter. -/
theorem evaluate_eq_of_pure {t : Ty}
    (h : ∀ limit inBody, evaluateExpr limit inBody scope [] e = pure t) (limit : Nat) :
    evaluate scope limit [] e = .ok t := by
  have hat : evaluateAt limit (limit + scope.size) scope [] e = pure t := by
    cases limit + scope.size with
    | zero => exact h _ _
    | succ levels => exact h _ _
  rw [evaluate, hat]
  rfl

section Names
variable {f : Builtin} (hf : scope.lookup f.name = some (.builtin f, holder))
include hf

theorem evaluate_builtin {t : Ty} (h : f.apply [] = .ok t) (limit : Nat) (inBody : Evaluator) :
    evaluateExpr limit inBody scope [] (.name f.name) = pure t := by
  have hresolve : scope.resolve f.name = .ok (.builtin f, holder) := by rw [Scope.resolve, hf]
  rw [evaluateExpr, nameType, Entries.get?_nil]
  simp only [hresolve]
  change Evaluation.lift (f.apply []) = pure t
  rw [h]
  rfl

theorem evaluate_builtin_call {limit : Nat} {inBody : Evaluator} {t u : Ty}
    (he : evaluateExpr limit inBody scope [] e = pure t) (h : f.apply [t] = .ok u) :
    evaluateExpr limit inBody scope [] (.call f.name [e]) = pure u := by
  simp only [evaluateExpr, evaluateAll, he, pure_bind, callType, hf, h]
  rfl

end Names

theorem denotes_point (hm : i.Moderate) (h : i.isPoint = true) :
    (Expr.number i.lower.value.shown).Denotes scope i.Mem := by
  have hne : i.isEmpty = false := by simpa using (Bool.and_eq_true_iff.1 h).1
  obtain ⟨x, hx⟩ := Interval.exists_mem hne
  have hpoint := Interval.point_shown h
  have hmem := Interval.mem_point_shown h
  have hregular : (Interval.point i.lower.value.shown).Regular := by
    rw [hpoint]
    exact ⟨⟨hm.lower.shown, hm.lower.shown⟩, i.lower.plain_shown, i.lower.plain_shown⟩
  refine ⟨_, (Ty.comprises_interval hregular (Interval.isEmpty_of_mem ((hmem x).2 hx))).congr hmem,
    fun limit inBody => ?_⟩
  have hnan := (Number.isNan_shown i.lower.value).trans hx.1.1
  rw [evaluateExpr, Ty.literal, if_neg (by simp [hnan])]
  rfl

theorem denotes_range (hm : i.Moderate) (h : i.isEmpty = false) :
    (Expr.range i.literal.shown).Denotes scope i.Mem := by
  refine ⟨_, (Ty.comprises_interval hm.shown (Interval.isEmpty_shown h)).congr
    (Interval.mem_shown h), fun limit inBody => ?_⟩
  rw [evaluateExpr, Interval.rangeType_literal h]

theorem denotes_realExpr (hm : i.Moderate) (h : i.isEmpty = false) :
    i.realExpr.shown.Denotes scope i.Mem := by
  unfold Interval.realExpr
  split
  · rename_i hpoint
    rw [Expr.shown]
    exact denotes_point hm hpoint
  · rw [Expr.shown]
    exact denotes_range hm h

theorem denotes_integerExpr (hint : scope.lookup Builtin.int.name = some (.builtin .int, holder))
    (hm : i.Moderate) (hi : i.Integral) :
    i.integerExpr.shown.Denotes scope fun x => i.Mem x ∧ ∃ z : ℤ, x = z := by
  unfold Interval.integerExpr
  split
  · rename_i hpoint
    rw [Expr.shown]
    exact (denotes_point hm hpoint).congr fun x => (and_iff_left_of_imp (hi.mem_point hpoint)).symm
  · split
    · rename_i hall
      have hmem := Interval.mem_of_beq_unbounded (Interval.clean_of_isEmpty hi.nonempty) hall
      rw [Expr.shown]
      exact ⟨_, Ty.comprises_int.congr fun x => (and_iff_right (hmem x)).symm,
        evaluate_builtin hint rfl⟩
    · have hrange : (Expr.range i.literal.shown).Denotes scope i.Mem := denotes_range hm hi.nonempty
      obtain ⟨t, ht, heval⟩ := hrange
      obtain ⟨w, hw⟩ := hi.exists_int
      obtain ⟨u, hu, hcomprises⟩ := ht.integersOf hw
      rw [Expr.shown, Expr.shownAll, Expr.shown, Expr.shownAll]
      exact ⟨u, hcomprises, fun limit inBody => evaluate_builtin_call hint (heval limit inBody) hu⟩

/-- The expression of a set denotes its numbers. -/
theorem denotes_partExprs (hint : scope.lookup Builtin.int.name = some (.builtin .int, holder))
    (hs : s.Standard) (hr : ∀ i ∈ s.reals, i.Moderate) (hi : ∀ i ∈ s.integers, i.Moderate)
    (hne : s.isEmpty = false) :
    (Expr.unionOf (s.partExprs.map Expr.shown)).Denotes scope s.Mem := by
  let properties : List (ℝ → Prop) :=
    s.integers.map (fun i (x : ℝ) => i.Mem x ∧ ∃ z : ℤ, x = z) ++ s.reals.map Interval.Mem
  have hparts : List.Forall₂ (Expr.Denotes · scope ·) (s.partExprs.map Expr.shown) properties := by
    rw [NumericSet.partExprs, List.map_append, List.map_map, List.map_map]
    refine List.rel_append ?_ ?_
    · rw [List.forall₂_map_left_iff, List.forall₂_map_right_iff, List.forall₂_same]
      exact fun i h => denotes_integerExpr hint (hi i h) (hs.integral i h)
    · rw [List.forall₂_map_left_iff, List.forall₂_map_right_iff, List.forall₂_same]
      exact fun i h => denotes_realExpr (hr i h) (hs.fractional i h).nonempty
  refine (denotes_unionOf hparts ?_).congr fun x => ?_
  · simpa using NumericSet.partExprs_ne_nil hne
  · simp only [properties, List.mem_append, List.mem_map, NumericSet.Mem, NumericSet.IntegerMem]
    constructor
    · rintro ⟨Q, ⟨i, hmem, rfl⟩ | ⟨i, hmem, rfl⟩, hx⟩
      · obtain ⟨hx, z, rfl⟩ := hx
        exact .inr ⟨z, rfl, i, hmem, hx⟩
      · exact .inl ⟨i, hmem, hx⟩
    · rintro (⟨i, hmem, hx⟩ | ⟨z, rfl, i, hmem, hx⟩)
      · exact ⟨_, .inr ⟨i, hmem, rfl⟩, hx⟩
      · exact ⟨_, .inl ⟨i, hmem, rfl⟩, hx, z, rfl⟩

end Denotations

section Texts

theorem isName_number : IsName Builtin.number.name :=
  ⟨@isWord_ofList 'n' ['u', 'm', 'b', 'e', 'r'] (by decide), by decide⟩

theorem parse_number : Expr.parse Ty.number.text = .ok (.name Builtin.number.name) := by
  have hparse : Expr.parse (Expr.name Builtin.number.name).text = .ok _ :=
    Expr.parse_text isName_number trivial (Expr.withinNesting_leaf rfl)
  rwa [Expr.text, Expr.shown] at hparse

variable {scope holder : Scope} {s : NumericSet}

/-- The text of a type of numbers within the limit is evaluated to a type that is equal to it. -/
theorem evaluateSource_text (hint : scope.lookup Builtin.int.name = some (.builtin .int, holder))
    (hnumber : scope.lookup Builtin.number.name = some (.builtin .number, holder))
    (hs : s.Standard) (hr : ∀ i ∈ s.reals, i.Moderate) (hi : ∀ i ∈ s.integers, i.Moderate)
    (hne : s.isEmpty = false) (hseparated : s.Separated)
    (hparts : s.integers.length + s.reals.length < maxNesting) (limit : Nat) :
    ∃ t, evaluateSource scope limit [] (Ty.ofNumericSet s).text = .ok t ∧
      (t == Ty.ofNumericSet s) = true := by
  have hw : s.Within := ⟨hr, fun i h => ⟨.inl (hi i h).lower, .inl (hi i h).upper⟩⟩
  have hsound := hs.sound hw
  have htight := hs.tight hw hseparated
  have hread : ∃ e, Expr.parse (Ty.ofNumericSet s).text = .ok e ∧ e.Denotes scope s.Mem := by
    obtain ⟨x, hx⟩ := NumericSet.exists_mem hsound hne
    rcases Ty.ofNumericSet_of_mem htight hsound hx with ⟨hall, hof⟩ | ⟨-, hof⟩
    · rw [hof]
      exact ⟨_, parse_number, _, Ty.comprises_number.congr fun y => (iff_true_intro (hall y)).symm,
        evaluate_builtin hnumber rfl⟩
    · rw [hof, Ty.text]
      exact ⟨_, NumericSet.parse_text hne hparts, denotes_partExprs hint hs hr hi hne⟩
  obtain ⟨e, hparse, t, ht, heval⟩ := hread
  rw [evaluateSource, hparse]
  exact ⟨t, evaluate_eq_of_pure heval limit, ht.beq htight hsound⟩

end Texts

/-- A finite end holds an integer that is displayed as one. -/
def Bound.Displayed (b : Bound) : Prop :=
  b.isFinite = true → ∃ z : ℤ, b.value.Holds z ∧ z.natAbs < Number.displayLimit

structure Interval.Displayed (i : Interval) : Prop where
  lower : i.lower.Displayed
  upper : i.upper.Displayed

theorem Bound.displayed_of_infinite {b : Bound} (h : b.isFinite = false) : b.Displayed := by
  intro hf
  rw [h] at hf
  cases hf

theorem Bound.displayed_closed {a : Number} {z : ℤ} (h : a.Holds z)
    (hz : z.natAbs < Number.displayLimit) : (Bound.closed a).Displayed := fun _ => ⟨z, h, hz⟩

theorem Bound.Displayed.moderate {b : Bound} (h : b.Displayed) : b.Moderate := by
  intro p hf hp
  have hlimit : Number.displayLimit ≤ Number.wholeLimit := by decide
  obtain ⟨z, hz, hlt⟩ := h hf
  exact moderate_of hz (hlt.trans_le hlimit) false p hf hp

theorem Interval.Displayed.moderate {i : Interval} (h : i.Displayed) : i.Moderate :=
  ⟨h.lower.moderate, h.upper.moderate⟩

/-- What is asked of a numeric set: it has some parts but not too many, whose finite ends are
integers that are displayed as such, and no two of its real intervals touch. -/
structure NumericSet.Displayed (s : NumericSet) : Prop where
  standard : s.Standard
  filled : s.isEmpty = false
  separated : s.Separated
  parts : s.reals.length + s.integers.length ≤ 100
  reals : ∀ i ∈ s.reals, i.Displayed
  integers : ∀ i ∈ s.integers, i.Displayed

/-- Numeric type texts read back: over the prelude, unless `int` or `number` is declared anew, the
text of `number` or of a numeric set is evaluated to a type equal to the one it is the text of. -/
theorem numeric_texts_read_back {root inner : Scope} (hroot : prelude = .ok root)
    (hinner : ∀ layer ∈ inner, layer.definitions.get? Builtin.int.name = none ∧
      layer.definitions.get? Builtin.number.name = none)
    {t : Ty} (ht : t = .number ∨ ∃ s : NumericSet, s.Displayed ∧ t = .ofNumericSet s)
    (limit : Nat) :
    ∃ u, evaluateSource (inner ++ root) limit [] t.text = .ok u ∧ (u == t) = true := by
  have hint := (Scope.lookup_append fun layer h => (hinner layer h).1).trans
    (Scope.lookup_prelude hroot .int)
  have hnumber := (Scope.lookup_append fun layer h => (hinner layer h).2).trans
    (Scope.lookup_prelude hroot .number)
  rcases ht with rfl | ⟨s, hs, rfl⟩
  · rw [evaluateSource, parse_number]
    refine ⟨_, evaluate_eq_of_pure (evaluate_builtin hnumber rfl) limit, ?_⟩
    change Ty.equal _ _ = true
    rw [Ty.equal]
  · have hparts : s.integers.length + s.reals.length < maxNesting := by
      have hle := hs.parts
      have hlimit : 100 < maxNesting := by decide
      omega
    exact evaluateSource_text hint hnumber hs.standard (fun i h => (hs.reals i h).moderate)
      (fun i h => (hs.integers i h).moderate) hs.filled hs.separated hparts limit

/-- The integers from seven on and the numbers up to minus three, under a layer of its own. -/
theorem ray_and_half_line_read_back :
    let s := NumericSet.ofParts [⟨.unboundedBelow, .closed (-3)⟩] [⟨.closed 7, .unboundedAbove⟩]
    let layer : Layer := ⟨"counts", [("count", .builtin .int)], []⟩
    s.Displayed ∧ (Ty.ofNumericSet s).text = "int(7..) | ..-3" ∧
      ∃ root u, prelude = .ok root ∧
        evaluateSource ([layer] ++ root) defaultCallDepth [] (Ty.ofNumericSet s).text = .ok u ∧
          (u == Ty.ofNumericSet s) = true := by
  intro s layer
  have hs : s = ⟨[⟨.unboundedBelow, .closed (-3)⟩], [⟨.closed 7, .unboundedAbove⟩]⟩ := by
    decide +kernel
  have hthree : (3 : Number).Holds (3 : ℕ) := @Number.holds_ofNat 3 (by decide)
  have hseven : (7 : Number).Holds (7 : ℕ) := @Number.holds_ofNat 7 (by decide)
  have hdisplayed : s.Displayed := by
    refine ⟨⟨_, _, rfl⟩, ?_, ?_, ?_, ?_, ?_⟩
    · rw [hs]
      rfl
    · rw [hs]
      exact List.pairwise_singleton _ _
    · rw [hs]
      decide
    · rw [hs]
      exact List.forall_mem_singleton.2
        ⟨Bound.displayed_of_infinite rfl, Bound.displayed_closed hthree.neg (by decide)⟩
    · rw [hs]
      exact List.forall_mem_singleton.2
        ⟨Bound.displayed_closed hseven (by decide), Bound.displayed_of_infinite rfl⟩
  have hroot : prelude = .ok _ := eq_ok_of_isOk (by decide +kernel) []
  have hlayer : ∀ other ∈ [layer], other.definitions.get? Builtin.int.name = none ∧
      other.definitions.get? Builtin.number.name = none :=
    List.forall_mem_singleton.2 ⟨rfl, rfl⟩
  obtain ⟨u, heval, hequal⟩ := numeric_texts_read_back hroot hlayer (.inr ⟨s, hdisplayed, rfl⟩)
    defaultCallDepth
  exact ⟨hdisplayed, by decide +kernel, _, u, hroot, heval, hequal⟩

end TypedFlow
