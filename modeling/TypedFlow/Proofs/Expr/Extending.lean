import TypedFlow.Expr.Parse
import TypedFlow.Proofs.Source.Extending

/-!
# More tokens behind an expression

An expression ends where its next token cannot go on with it, so that what comes behind that token
is not seen. A range is the one place at which two tokens are looked at.
-/
namespace TypedFlow.Expr
open Reader

section Steps

theorem extends_tooDeep {α : Type} : Extends (tooDeep : Reader α) := extends_fail _

theorem extends_chainStep (op? : Symbol → Option BinaryOp) {operand : Reader Expr}
    {continued : Expr → Reader Expr} (ho : Extends operand) (hc : ∀ x, Extends (continued x))
    (left : Expr) : Extends (chainStep op? operand continued left) := by
  refine extends_peek.bind fun next => ?_
  split
  · split
    · exact extends_skip.bind fun _ => extends_descend.bind fun _ => ho.bind fun _ => hc _
    · exact extends_pure left
  · exact extends_pure left

theorem extends_chain (op? : Symbol → Option BinaryOp) {operand : Reader Expr}
    (ho : Extends operand) (levels : Nat) (left : Expr) :
    Extends (chain op? operand levels left) := by
  induction levels generalizing left with
  | zero => exact extends_chainStep op? ho (fun _ => extends_tooDeep) left
  | succ levels ih => exact extends_chainStep op? ho ih left

theorem extends_joined (op? : Symbol → Option BinaryOp) {operand : Reader Expr}
    (ho : Extends operand) (levels : Nat) : Extends (joined op? levels operand) :=
  ho.bind fun left => extends_chain op? ho levels left

theorem extends_accessStep {continued : Expr → Reader Expr} (hc : ∀ x, Extends (continued x))
    (target : Expr) : Extends (accessStep continued target) :=
  (extends_eat .dot).bind fun _ => extends_ite
    (extends_descend.bind fun _ => (extends_identifier _).bind fun _ => hc _) (extends_pure target)

theorem extends_accesses (levels : Nat) (target : Expr) : Extends (accesses levels target) := by
  induction levels generalizing target with
  | zero => exact extends_accessStep (fun _ => extends_tooDeep) target
  | succ levels ih => exact extends_accessStep ih target

/-- Only behind a minus is a second token looked at, for the upper end of the range. -/
theorem extends_rangeFrom (min : Option Number) (mark : RangeMark) :
    Extends (rangeFrom min mark) := by
  have hrest : ∀ max : Option Number, Extends (do
      if max.isNone && !mark.maxInclusive then fail .rangeWithoutMax
      return Expr.range ⟨min, max, mark.minInclusive, mark.maxInclusive⟩) := fun max =>
    extends_ite ((extends_fail .rangeWithoutMax).bind fun _ => extends_pure _) (extends_pure _)
  refine extends_lookahead (fun next second => ?_) fun next second hminus => ?_
  · split
    · exact extends_skip.bind fun _ => (extends_pure _).bind hrest
    · exact extends_skip.bind fun _ => extends_skip.bind fun _ => (extends_pure _).bind hrest
    · exact (extends_pure _).bind hrest
  · match next, hminus with
    | some (.symbol s), hminus =>
      cases s with
      | minus => exact absurd rfl hminus
      | _ => rfl
    | none, _ | some (.word _), _ | some (.number _), _ | some (.text _), _ | some (.range _), _ =>
      rfl

theorem extends_numberOrRange (value : Number) : Extends (numberOrRange value) := by
  refine extends_peek.bind fun next => ?_
  split
  · exact extends_skip.bind fun _ => extends_rangeFrom _ _
  · exact extends_pure _

theorem extends_signStep {operand negated : Reader Expr} (ho : Extends operand)
    (hn : Extends negated) : Extends (signStep operand negated) := by
  refine (extends_eat .minus).bind fun _ => extends_ite (extends_peek.bind fun next => ?_) ho
  split
  · exact extends_skip.bind fun _ => extends_numberOrRange _
  · exact extends_descend.bind fun _ => hn.bind fun _ => extends_pure _

theorem extends_signed {operand : Reader Expr} (ho : Extends operand) (levels : Nat) :
    Extends (signed operand levels) := by
  induction levels with
  | zero => exact extends_signStep ho extends_tooDeep
  | succ levels ih => exact extends_signStep ho ih

end Steps

section Parts
variable {inner : Reader Expr} (hi : Extends inner)
include hi

theorem extends_callOf (function : String) : Extends (callOf inner function) :=
  (extends_expect _).bind fun _ =>
    ((hi.delimited (by decide)).toExtends.withRecords true).bind fun _ => extends_pure _

theorem extends_labelled (role : String) : Extends (labelled inner role) :=
  (extends_identifier role).bind fun _ => (extends_expect .colon).bind fun _ =>
    hi.bind fun _ => extends_pure _

theorem extends_recordOf (owner : String) : Extends (recordOf inner owner) :=
  (extends_expect _).bind fun _ =>
    (((extends_labelled hi _).delimited (by decide)).toExtends.withRecords true).bind
      fun _ => extends_pure _

theorem extends_reference : Extends (reference inner) := by
  refine (extends_identifier _).bind fun n => (extends_eat _).bind fun _ => extends_ite ?_ ?_
  · refine (extends_identifier _).bind fun member => extends_peek.bind fun next => ?_
    split
    · exact extends_callOf hi _
    · exact extends_pure _
  · refine extends_peek.bind fun next => ?_
    split
    · exact extends_callOf hi _
    · refine extends_records (r := fun allowed => if allowed then recordOf inner n else _) ?_
      exact fun _ => extends_ite (extends_recordOf hi _) (extends_pure _)
    · exact extends_pure _

theorem extends_arm : Extends (arm inner) := by
  have hbinding : ∀ pattern : Option Expr, Extends (do
      let binding ← if ← eatWord "as" then some <$> identifier "binding name" else pure none
      expect .arrow
      return MatchArm.mk pattern binding (← inner)) := by
    refine fun pattern => (extends_eatWord _).bind fun _ => extends_ite ?_ ?_
    · exact ((extends_identifier _).map some).bind fun _ => (extends_expect _).bind fun _ =>
        hi.bind fun _ => extends_pure _
    · exact (extends_pure none).bind fun _ => (extends_expect _).bind fun _ =>
        hi.bind fun _ => extends_pure _
  exact (extends_eatWord _).bind fun _ => extends_ite ((extends_pure none).bind hbinding)
    ((hi.map some).bind hbinding)

theorem extends_selectOf : Extends (selectOf inner) := by
  refine (hi.withRecords false).bind fun scrutinee => (extends_expect _).bind fun _ => ?_
  refine (((extends_arm hi).delimited (by decide)).toExtends.withRecords true).bind fun arms => ?_
  exact extends_ite ((extends_fail _).bind fun _ => extends_pure _) (extends_pure _)

theorem extends_primary : Extends (primary inner) := by
  refine extends_peek.bind fun next => ?_
  split
  · exact extends_skip.bind fun _ => extends_numberOrRange _
  · exact extends_skip.bind fun _ => extends_pure _
  · rename_i mark
    have hrange := extends_skip.bind fun _ => extends_rangeFrom none mark
    exact extends_ite ((extends_fail _).bind fun _ => hrange) hrange
  · exact extends_skip.bind fun _ => (hi.withRecords true).bind fun _ =>
      (extends_expect _).bind fun _ => extends_pure _
  · exact extends_ite (extends_skip.bind fun _ => extends_selectOf hi) (extends_reference hi)
  · exact extends_expected _

theorem extends_operators (levels : Nat) : Extends (operators levels inner) := by
  have haccess := (extends_primary hi).bind fun target => extends_accesses levels target
  exact extends_joined _ (extends_joined _ (extends_joined _ (extends_joined _
    (extends_signed haccess levels) levels) levels) levels) levels

end Parts

theorem extends_expressionAt (levels : Nat) : Extends (expressionAt levels) := by
  induction levels with
  | zero => exact extends_tooDeep
  | succ levels ih => exact (extends_operators ih levels).nested

theorem extends_expression : Extends expression := extends_expressionAt maxNesting

/-- Behind an expression there are as many levels left as before it. -/
theorem keeps_expression : Keeps expression := keeps_nested _

end TypedFlow.Expr
