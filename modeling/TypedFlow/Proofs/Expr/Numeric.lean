import TypedFlow.NumericSet.Text
import TypedFlow.Proofs.Expr.RoundTrip

/-!
# Numeric sets as expressions

The text of a numeric set is that of an expression: the union of its parts, each of them a number, a
range, or the call that takes the integers of a range. It is read back as this expression where the
parts are not more than the levels of nesting.
-/
namespace TypedFlow

namespace Expr

section Unions
variable {first : Expr} {exprs : List Expr}

/-- The union of some expressions from the left to the right. -/
def unionOf : List Expr → Expr
  | [] => .name Builtin.never.name
  | first :: exprs => exprs.foldl (.binary .union) first

/-- What may stand between bars: it needs no parentheses, and any level is enough to read it. -/
structure Operand (e : Expr) : Prop where
  precedence : e.precedence = 6
  wellFormed : e.WellFormed
  legible : e.Legible
  level : ∀ k, e.levelsLeft (k + 1) = some (k + 1)

theorem operand_leaf {e : Expr} (hleaf : e.isLeaf = true) (hw : e.WellFormed) (hl : e.Legible) :
    e.Operand where
  precedence := by
    cases e with
    | number _ | string _ | range _ | name _ | path _ _ => rfl
    | _ => cases hleaf
  wellFormed := hw
  legible := hl
  level k := by rw [levelsLeft_leaf hleaf]

theorem operand_call {function : String} {e : Expr} (hf : IsFunctionName function)
    (hleaf : e.isLeaf = true) (hw : e.WellFormed) (hl : e.Legible) :
    (Expr.call function [e]).Operand where
  precedence := rfl
  wellFormed := ⟨hf, hw, trivial⟩
  legible := ⟨hl, trivial⟩
  level k := by simp [levelsLeft, levelsAll, levelsLeft_leaf hleaf, nestedLevels, down]

/-- What has been joined so far needs no parentheses on the left of a bar. -/
theorem text_union (hfirst : 1 ≤ first.precedence) {e : Expr} (he : e.Operand) :
    (Expr.binary .union first e).text = first.text ++ unionMark ++ e.text := by
  have hleft : ¬ first.precedence < 1 := by omega
  have hmark : unionMark = " " ++ "|" ++ " " := rfl
  simp [text, parenthesized, BinaryOp.precedence, BinaryOp.symbol, hleft, he.precedence, hmark,
    String.append_assoc]

theorem text_foldl_union (h : ∀ e ∈ exprs, e.Operand) (hfirst : 1 ≤ first.precedence) :
    (exprs.foldl (.binary .union) first).text =
      unionMark.intercalate (first.text :: exprs.map text) := by
  induction exprs generalizing first with
  | nil => simp
  | cons e exprs ih =>
    obtain ⟨he, h⟩ := List.forall_mem_cons.1 h
    rw [List.foldl_cons, ih h (by simp [precedence, BinaryOp.precedence]), text_union hfirst he,
      List.map_cons, String.intercalate_cons_append, String.intercalate_cons_cons]

theorem wellFormed_foldl_union (h : ∀ e ∈ exprs, e.Operand) (hfirst : first.WellFormed) :
    (exprs.foldl (.binary .union) first).WellFormed := by
  induction exprs generalizing first with
  | nil => exact hfirst
  | cons e exprs ih =>
    obtain ⟨he, h⟩ := List.forall_mem_cons.1 h
    exact ih h ⟨hfirst, he.wellFormed⟩

theorem legible_foldl_union (h : ∀ e ∈ exprs, e.Operand) (hfirst : first.Legible) :
    (exprs.foldl (.binary .union) first).Legible := by
  induction exprs generalizing first with
  | nil => exact hfirst
  | cons e exprs ih =>
    obtain ⟨he, h⟩ := List.forall_mem_cons.1 h
    exact ih h ⟨hfirst, he.legible, fun hop => by cases hop.1⟩

/-- Every bar takes a level, and the operand behind it needs one that is left. -/
theorem levelsLeft_foldl_union (h : ∀ e ∈ exprs, e.Operand) (hprec : 1 ≤ first.precedence)
    {k j : Nat} (hfirst : first.levelsLeft k = some (j + exprs.length + 1)) :
    (exprs.foldl (.binary .union) first).levelsLeft k = some (j + 1) := by
  induction exprs generalizing first with
  | nil => exact hfirst
  | cons e exprs ih =>
    obtain ⟨he, h⟩ := List.forall_mem_cons.1 h
    apply ih h (by simp [precedence, BinaryOp.precedence])
    have hleft : ¬ first.precedence < 1 := by omega
    rw [List.length_cons, ← Nat.add_assoc] at hfirst
    simp [levelsLeft, placedLevels, BinaryOp.precedence, hleft, he.precedence, hfirst, down,
      he.level]

theorem shown_foldl_union :
    (exprs.foldl (.binary .union) first).shown =
      (exprs.map shown).foldl (.binary .union) first.shown := by
  induction exprs generalizing first with
  | nil => rfl
  | cons e exprs ih => rw [List.foldl_cons, ih, List.map_cons, List.foldl_cons, shown]

theorem shown_unionOf (exprs : List Expr) : (unionOf exprs).shown = unionOf (exprs.map shown) := by
  cases exprs with
  | nil => simp [unionOf, shown]
  | cons first exprs => exact shown_foldl_union

theorem text_unionOf (h : ∀ e ∈ exprs, e.Operand) (hne : exprs ≠ []) :
    (unionOf exprs).text = unionMark.intercalate (exprs.map text) := by
  cases exprs with
  | nil => exact absurd rfl hne
  | cons first exprs =>
    obtain ⟨hfirst, h⟩ := List.forall_mem_cons.1 h
    exact text_foldl_union h (by rw [hfirst.precedence]; decide)

/-- A union is read back as long as there are fewer operands than levels. -/
theorem parse_unionOf (h : ∀ e ∈ exprs, e.Operand) (hne : exprs ≠ [])
    (hlength : exprs.length < maxNesting) :
    parse (unionOf exprs).text = .ok (unionOf (exprs.map shown)) := by
  cases exprs with
  | nil => exact absurd rfl hne
  | cons first exprs =>
    obtain ⟨hfirst, h⟩ := List.forall_mem_cons.1 h
    obtain ⟨j, hj⟩ : ∃ j, maxNesting = j + exprs.length + 1 + 1 :=
      ⟨maxNesting - (exprs.length + 2), by rw [List.length_cons] at hlength; omega⟩
    have hlevels := levelsLeft_foldl_union h (by rw [hfirst.precedence]; decide)
      (hfirst.level (j + exprs.length))
    have hnesting : (unionOf (first :: exprs)).WithinNesting := by
      rw [WithinNesting, hj, nestedLevels, down, Option.bind_some, unionOf, hlevels]
      rfl
    rw [← shown_unionOf]
    exact parse_text (wellFormed_foldl_union h hfirst.wellFormed)
      (legible_foldl_union h hfirst.legible) hnesting

end Unions

end Expr

section Parts

namespace Bound
variable {b : Bound}

/-- The number that a text shows for an end. -/
def number? (b : Bound) : Option Number := if b.isFinite then some b.value else none

/-- A text does not mark the end as excluded. -/
def unmarked (b : Bound) : Bool := !b.isFinite || b.inclusive

theorem text_number? (b : Bound) : b.number?.elim "" Number.display = b.text := by
  unfold number? text
  split <;> rfl

theorem openMark_eq (b : Bound) : b.openMark = if b.unmarked then "" else "<" := by
  cases hf : b.isFinite <;> cases hincl : b.inclusive <;> simp [unmarked, openMark, hf, hincl]

theorem unmarked_of_none (h : b.number? = none) : b.unmarked = true := by
  cases hf : b.isFinite with
  | false => simp [unmarked, hf]
  | true => simp [number?, hf] at h

theorem isFinite_of_some {a : Number} (h : b.number? = some a) : a.isFinite = true := by
  unfold number? at h
  split at h
  · rename_i hf
    cases h
    exact hf
  · cases h

end Bound

namespace Interval
variable {i : Interval}

def literal (i : Interval) : RangeLiteral :=
  ⟨i.lower.number?, i.upper.number?, i.lower.unmarked, i.upper.unmarked⟩

def realExpr (i : Interval) : Expr := if i.isPoint then .number i.lower.value else .range i.literal

def integerExpr (i : Interval) : Expr :=
  if i.isPoint then .number i.lower.value
  else if i == .unbounded then .name Builtin.int.name
  else .call Builtin.int.name [.range i.literal]

theorem wellFormed_literal (i : Interval) : i.literal.WellFormed :=
  ⟨Bound.unmarked_of_none, Bound.unmarked_of_none⟩

theorem finite_literal (i : Interval) : i.literal.Finite :=
  ⟨fun _ => Bound.isFinite_of_some, fun _ => Bound.isFinite_of_some⟩

theorem text_literal (i : Interval) : i.literal.text = i.rangeText := by
  have hmark : i.literal.mark.spelling = i.lower.openMark ++ ".." ++ i.upper.openMark := by
    rw [Bound.openMark_eq, Bound.openMark_eq]
    rfl
  rw [RangeLiteral.text_eq i.wellFormed_literal, hmark]
  simp only [literal, rangeText, Bound.text_number?, String.append_assoc]

/-- Both ends of a point are included. -/
theorem inclusive_of_isPoint (h : i.isPoint = true) :
    i.lower.inclusive = true ∧ i.upper.inclusive = true := by
  simp only [isPoint, Bool.and_eq_true, Bool.not_eq_true'] at h
  obtain ⟨hne, heq⟩ := h
  simp [isEmpty, heq] at hne
  exact hne.2

theorem text_realExpr (i : Interval) : i.realExpr.text = i.realText := by
  simp only [realExpr, realText]
  split
  · rw [Expr.text]
  · rw [Expr.text, text_literal]

theorem text_integerExpr (i : Interval) : i.integerExpr.text = i.integerText := by
  simp only [integerExpr, integerText]
  split
  · rw [Expr.text]
  · split
    · rw [Expr.text]
      rfl
    · simp [Expr.text, Expr.texts, text_literal, Builtin.name]

theorem operand_number (h : i.isPoint = true) : (Expr.number i.lower.value).Operand :=
  Expr.operand_leaf rfl trivial (i.lower.finite_of_inclusive (inclusive_of_isPoint h).1)

theorem operand_realExpr (i : Interval) : i.realExpr.Operand := by
  unfold realExpr
  split
  · rename_i hpoint
    exact operand_number hpoint
  · exact Expr.operand_leaf rfl i.wellFormed_literal i.finite_literal

theorem isName_int : IsName Builtin.int.name :=
  ⟨@isWord_ofList 'i' ['n', 't'] (by decide), by decide⟩

theorem operand_integerExpr (i : Interval) : i.integerExpr.Operand := by
  unfold integerExpr
  split
  · rename_i hpoint
    exact operand_number hpoint
  · split
    · exact Expr.operand_leaf rfl isName_int trivial
    · exact Expr.operand_call (.inl isName_int) rfl i.wellFormed_literal i.finite_literal

end Interval

namespace NumericSet
variable {s : NumericSet}

/-- An expression for every part, those of integers first. -/
def partExprs (s : NumericSet) : List Expr :=
  s.integers.map Interval.integerExpr ++ s.reals.map Interval.realExpr

theorem operand_partExprs (s : NumericSet) : ∀ e ∈ s.partExprs, e.Operand := by
  intro e he
  rcases List.mem_append.1 he with he | he
  · obtain ⟨i, -, rfl⟩ := List.mem_map.1 he
    exact i.operand_integerExpr
  · obtain ⟨i, -, rfl⟩ := List.mem_map.1 he
    exact i.operand_realExpr

theorem partExprs_ne_nil (h : s.isEmpty = false) : s.partExprs ≠ [] := by
  rintro hnil
  simp [partExprs] at hnil
  simp [isEmpty, hnil] at h

theorem text_partExprs (h : s.isEmpty = false) : (Expr.unionOf s.partExprs).text = s.text := by
  have hinteger : Expr.text ∘ Interval.integerExpr = Interval.integerText :=
    funext Interval.text_integerExpr
  have hreal : Expr.text ∘ Interval.realExpr = Interval.realText := funext Interval.text_realExpr
  rw [Expr.text_unionOf s.operand_partExprs (partExprs_ne_nil h), text, h, partExprs,
    List.map_append, List.map_map, List.map_map, hinteger, hreal]
  rfl

/-- The text of a set is read as the union of its parts, but for the signs of zeros. -/
theorem parse_text (h : s.isEmpty = false)
    (hparts : s.integers.length + s.reals.length < maxNesting) :
    Expr.parse s.text = .ok (Expr.unionOf (s.partExprs.map Expr.shown)) := by
  rw [← text_partExprs h]
  exact Expr.parse_unionOf s.operand_partExprs (partExprs_ne_nil h)
    (by simpa [partExprs] using hparts)

end NumericSet

end Parts

end TypedFlow
