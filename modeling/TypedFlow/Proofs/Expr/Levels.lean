import TypedFlow.Expr.Parse
import TypedFlow.Proofs.Source.Levels

/-!
# More levels for expressions

Reading an expression with more levels gives the same unless no level was left.
-/
namespace TypedFlow.Expr
open Reader

section Steps

theorem agrees_chainStep (op? : Symbol → Option BinaryOp) {operand operand' : Reader Expr}
    {continued continued' : Expr → Reader Expr} (ho : Agrees operand operand')
    (hc : ∀ x, Agrees (continued x) (continued' x)) (left : Expr) :
    Agrees (chainStep op? operand continued left) (chainStep op? operand' continued' left) := by
  refine agrees_peek.bind fun next => ?_
  split
  · split
    · exact agrees_skip.bind fun _ => agrees_descend.bind fun _ => ho.bind fun _ => hc _
    · exact agrees_pure left
  · exact agrees_pure left

theorem agrees_chain (op? : Symbol → Option BinaryOp) {operand operand' : Reader Expr}
    (ho : Agrees operand operand') {levels levels' : Nat} (h : levels ≤ levels') (left : Expr) :
    Agrees (chain op? operand levels left) (chain op? operand' levels' left) := by
  induction levels generalizing levels' left with
  | zero => cases levels' <;> exact agrees_chainStep op? ho (fun _ => agrees_tooDeep _) left
  | succ levels ih =>
    obtain ⟨more, rfl⟩ : ∃ n, levels' = n + 1 := ⟨levels' - 1, by omega⟩
    exact agrees_chainStep op? ho (fun x => ih (Nat.le_of_succ_le_succ h) x) left

theorem agrees_joined (op? : Symbol → Option BinaryOp) {operand operand' : Reader Expr}
    (ho : Agrees operand operand') {levels levels' : Nat} (h : levels ≤ levels') :
    Agrees (joined op? levels operand) (joined op? levels' operand') :=
  ho.bind fun left => agrees_chain op? ho h left

theorem agrees_accessStep {continued continued' : Expr → Reader Expr}
    (hc : ∀ x, Agrees (continued x) (continued' x)) (target : Expr) :
    Agrees (accessStep continued target) (accessStep continued' target) :=
  (agrees_eat .dot).bind fun _ => agrees_ite
    (agrees_descend.bind fun _ => (agrees_identifier _).bind fun _ => hc _) (agrees_pure target)

theorem agrees_accesses {levels levels' : Nat} (h : levels ≤ levels') (target : Expr) :
    Agrees (accesses levels target) (accesses levels' target) := by
  induction levels generalizing levels' target with
  | zero => cases levels' <;> exact agrees_accessStep (fun _ => agrees_tooDeep _) target
  | succ levels ih =>
    obtain ⟨more, rfl⟩ : ∃ n, levels' = n + 1 := ⟨levels' - 1, by omega⟩
    exact agrees_accessStep (fun x => ih (Nat.le_of_succ_le_succ h) x) target

theorem agrees_rangeFrom (min : Option Number) (mark : RangeMark) :
    Agrees (rangeFrom min mark) (rangeFrom min mark) := by
  have hrest : ∀ max : Option Number, Agrees (do
      if max.isNone && !mark.maxInclusive then fail .rangeWithoutMax
      return Expr.range ⟨min, max, mark.minInclusive, mark.maxInclusive⟩) _ := fun max =>
    agrees_ite ((agrees_fail .rangeWithoutMax).bind fun _ => agrees_pure _) (agrees_pure _)
  refine agrees_peek.bind fun next => agrees_peekSecond.bind fun second => ?_
  split
  · exact agrees_skip.bind fun _ => (agrees_pure _).bind hrest
  · exact agrees_skip.bind fun _ => agrees_skip.bind fun _ => (agrees_pure _).bind hrest
  · exact (agrees_pure _).bind hrest

theorem agrees_numberOrRange (value : Number) :
    Agrees (numberOrRange value) (numberOrRange value) := by
  refine agrees_peek.bind fun next => ?_
  split
  · exact agrees_skip.bind fun _ => agrees_rangeFrom _ _
  · exact agrees_pure _

theorem agrees_signStep {operand operand' negated negated' : Reader Expr}
    (ho : Agrees operand operand') (hn : Agrees negated negated') :
    Agrees (signStep operand negated) (signStep operand' negated') := by
  refine (agrees_eat .minus).bind fun _ => agrees_ite (agrees_peek.bind fun next => ?_) ho
  split
  · exact agrees_skip.bind fun _ => agrees_numberOrRange _
  · exact agrees_descend.bind fun _ => hn.bind fun _ => agrees_pure _

theorem agrees_signed {operand operand' : Reader Expr} (ho : Agrees operand operand')
    {levels levels' : Nat} (h : levels ≤ levels') :
    Agrees (signed operand levels) (signed operand' levels') := by
  induction levels generalizing levels' with
  | zero => cases levels' <;> exact agrees_signStep ho (agrees_tooDeep _)
  | succ levels ih =>
    obtain ⟨more, rfl⟩ : ∃ n, levels' = n + 1 := ⟨levels' - 1, by omega⟩
    exact agrees_signStep ho (ih (Nat.le_of_succ_le_succ h))

end Steps

section Parts
variable {inner inner' : Reader Expr} (hi : Agrees inner inner')
include hi

theorem agrees_callOf (function : String) :
    Agrees (callOf inner function) (callOf inner' function) :=
  (agrees_expect _).bind fun _ => ((hi.delimited _).withRecords true).bind fun _ => agrees_pure _

theorem agrees_labelled (role : String) : Agrees (labelled inner role) (labelled inner' role) :=
  (agrees_identifier role).bind fun _ => (agrees_expect .colon).bind fun _ =>
    hi.bind fun _ => agrees_pure _

theorem agrees_recordOf (owner : String) : Agrees (recordOf inner owner) (recordOf inner' owner) :=
  (agrees_expect _).bind fun _ => (((agrees_labelled hi _).delimited _).withRecords true).bind
    fun _ => agrees_pure _

theorem agrees_reference : Agrees (reference inner) (reference inner') := by
  refine (agrees_identifier _).bind fun n => (agrees_eat _).bind fun _ => agrees_ite ?_ ?_
  · refine (agrees_identifier _).bind fun member => agrees_peek.bind fun next => ?_
    split
    · exact agrees_callOf hi _
    · exact agrees_pure _
  · refine agrees_peek.bind fun next => ?_
    split
    · exact agrees_callOf hi _
    · exact agrees_read.bind fun _ => agrees_ite (agrees_recordOf hi _) (agrees_pure _)
    · exact agrees_pure _

theorem agrees_arm : Agrees (arm inner) (arm inner') := by
  have hbinding : ∀ pattern : Option Expr, Agrees (do
      let binding ← if ← eatWord "as" then some <$> identifier "binding name" else pure none
      expect .arrow
      return MatchArm.mk pattern binding (← inner)) (do
      let binding ← if ← eatWord "as" then some <$> identifier "binding name" else pure none
      expect .arrow
      return MatchArm.mk pattern binding (← inner')) := by
    refine fun pattern => (agrees_eatWord _).bind fun _ => agrees_ite ?_ ?_
    · exact ((agrees_identifier _).map some).bind fun _ => (agrees_expect _).bind fun _ =>
        hi.bind fun _ => agrees_pure _
    · exact (agrees_pure none).bind fun _ => (agrees_expect _).bind fun _ =>
        hi.bind fun _ => agrees_pure _
  exact (agrees_eatWord _).bind fun _ => agrees_ite ((agrees_pure none).bind hbinding)
    ((hi.map some).bind hbinding)

theorem agrees_selectOf : Agrees (selectOf inner) (selectOf inner') := by
  refine (hi.withRecords false).bind fun scrutinee => (agrees_expect _).bind fun _ => ?_
  refine (((agrees_arm hi).delimited _).withRecords true).bind fun arms => ?_
  exact agrees_ite ((agrees_fail _).bind fun _ => agrees_pure _) (agrees_pure _)

theorem agrees_primary : Agrees (primary inner) (primary inner') := by
  refine agrees_peek.bind fun next => ?_
  split
  · exact agrees_skip.bind fun _ => agrees_numberOrRange _
  · exact agrees_skip.bind fun _ => agrees_pure _
  · rename_i mark
    have hrange := agrees_skip.bind fun _ => agrees_rangeFrom none mark
    exact agrees_ite ((agrees_fail _).bind fun _ => hrange) hrange
  · exact agrees_skip.bind fun _ => (hi.withRecords true).bind fun _ =>
      (agrees_expect _).bind fun _ => agrees_pure _
  · exact agrees_ite (agrees_skip.bind fun _ => agrees_selectOf hi) (agrees_reference hi)
  · exact agrees_expected _

theorem agrees_operators {levels levels' : Nat} (h : levels ≤ levels') :
    Agrees (operators levels inner) (operators levels' inner') := by
  have haccess := (agrees_primary hi).bind fun target => agrees_accesses h target
  exact agrees_joined _ (agrees_joined _ (agrees_joined _ (agrees_joined _
    (agrees_signed haccess h) h) h) h) h

end Parts

theorem agrees_expressionAt {levels levels' : Nat} (h : levels ≤ levels') :
    Agrees (expressionAt levels) (expressionAt levels') := by
  induction levels generalizing levels' with
  | zero => exact agrees_tooDeep _
  | succ levels ih =>
    obtain ⟨more, rfl⟩ : ∃ n, levels' = n + 1 := ⟨levels' - 1, by omega⟩
    have hle := Nat.le_of_succ_le_succ h
    exact (agrees_operators (ih hle) hle).nested

end TypedFlow.Expr
