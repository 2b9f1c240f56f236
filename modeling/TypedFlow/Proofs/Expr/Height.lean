import TypedFlow.Expr.Parse
import TypedFlow.Proofs.Source.Spending

/-!
# The height of what is read

An expression in parentheses gives back the levels that it has used, while its height stays. So an
expression may be higher than the levels given for it, by those that each of the expressions nested
in it has used in turn.
-/
namespace TypedFlow
open Reader

namespace Expr

mutual

/-- A leaf has height one, anything else one more than its highest part. -/
def height : Expr → Nat
  | .number _ | .string _ | .range _ | .name _ | .path _ _ => 1
  | .field target _ => height target + 1
  | .call _ args => heightAll args + 1
  | .record _ fields => heightFields fields + 1
  | .binary _ left right => max (height left) (height right) + 1
  | .negate operand => height operand + 1
  | .select scrutinee arms => max (height scrutinee) (heightArms arms) + 1

def heightAll : List Expr → Nat
  | [] => 0
  | e :: exprs => max (height e) (heightAll exprs)

def heightFields : List (String × Expr) → Nat
  | [] => 0
  | (_, e) :: fields => max (height e) (heightFields fields)

def heightArms : List (MatchArm Expr) → Nat
  | [] => 0
  | ⟨none, _, body⟩ :: arms => max (height body) (heightArms arms)
  | ⟨some p, _, body⟩ :: arms => max (max (height p) (height body)) (heightArms arms)

end

theorem heightAll_le {exprs : List Expr} {n : Nat} (h : ∀ e ∈ exprs, e.height ≤ n) :
    heightAll exprs ≤ n := by
  induction exprs with
  | nil => exact Nat.zero_le n
  | cons e exprs ih =>
    obtain ⟨he, hrest⟩ := List.forall_mem_cons.1 h
    rw [heightAll]
    exact Nat.max_le.2 ⟨he, ih hrest⟩

theorem heightFields_le {fields : List (String × Expr)} {n : Nat}
    (h : ∀ f ∈ fields, f.2.height ≤ n) : heightFields fields ≤ n := by
  induction fields with
  | nil => exact Nat.zero_le n
  | cons f fields ih =>
    obtain ⟨hf, hrest⟩ := List.forall_mem_cons.1 h
    rw [heightFields]
    exact Nat.max_le.2 ⟨hf, ih hrest⟩

def ArmWithin (n : Nat) (a : MatchArm Expr) : Prop :=
  (∀ p ∈ a.pattern, p.height ≤ n) ∧ a.body.height ≤ n

theorem heightArms_le {arms : List (MatchArm Expr)} {n : Nat} (h : ∀ a ∈ arms, ArmWithin n a) :
    heightArms arms ≤ n := by
  induction arms with
  | nil => exact Nat.zero_le n
  | cons a arms ih =>
    obtain ⟨⟨hpattern, hbody⟩, hrest⟩ := List.forall_mem_cons.1 h
    obtain ⟨pattern, binding, body⟩ := a
    cases pattern with
    | none =>
      rw [heightArms]
      exact Nat.max_le.2 ⟨hbody, ih hrest⟩
    | some p =>
      rw [heightArms]
      exact Nat.max_le.2 ⟨Nat.max_le.2 ⟨hpattern p rfl, hbody⟩, ih hrest⟩

/-- The height that levels allow for: all but one are used behind an expression that is one level
further in. -/
def heightLimit : Nat → Nat
  | 0 => 0
  | levels + 1 => heightLimit levels + (levels + 1)

/-- What the reader gives is no higher than the levels spent for it, wherever `c` is allowed for. -/
def Grows (m c : Nat) (r : Reader Expr) : Prop :=
  ∀ n, c ≤ n → Spends m n (fun k e => e.height ≤ k) r

variable {m c h : Nat}

theorem grows_tooDeep : Grows m c tooDeep := fun _ _ => spends_fail _

section Leaves
variable (hc : 1 ≤ c)
include hc

theorem grows_rangeFrom (min : Option Number) (mark : RangeMark) :
    Grows m c (rangeFrom min mark) := by
  have hrest : ∀ (max : Option Number) n, c ≤ n → Spends m n (fun k e => e.height ≤ k) (do
      if max.isNone && !mark.maxInclusive then fail .rangeWithoutMax
      return Expr.range ⟨min, max, mark.minInclusive, mark.maxInclusive⟩) := fun _ _ hn =>
    spends_unless (spends_pure (Nat.le_trans hc hn))
  intro n hn
  refine spends_peek.bind fun n' next hn' _ => spends_peekSecond.bind fun n'' second hn'' _ => ?_
  split
  · exact spends_skip.bind fun _ _ hk _ => (spends_any _).bind fun _ max hk' _ =>
      hrest max _ (by omega)
  · exact spends_skip.bind fun _ _ hj _ => spends_skip.bind fun _ _ hk _ =>
      (spends_any _).bind fun _ max hk' _ => hrest max _ (by omega)
  · exact (spends_any _).bind fun _ max hk' _ => hrest max _ (by omega)

theorem grows_numberOrRange (value : Number) : Grows m c (numberOrRange value) := by
  intro n hn
  refine spends_peek.bind fun n' next hn' _ => ?_
  split
  · exact spends_skip.bind fun _ _ hk _ => grows_rangeFrom hc _ _ _ (by omega)
  · exact spends_pure (by simp only [height]; omega)

end Leaves

section Parts
variable {inner : Reader Expr} (hi : ∀ n, Spends m n (fun _ e => e.height ≤ h) inner)
include hi

theorem spends_labelled (role : String) (n : Nat) :
    Spends m n (fun _ f => f.2.height ≤ h) (labelled inner role) :=
  (spends_identifier role).bind fun _ _ _ _ => (spends_expect .colon).bind fun _ _ _ _ =>
    (hi _).bind fun _ _ _ he => spends_pure he

theorem spends_arm (n : Nat) : Spends m n (fun _ a => ArmWithin h a) (arm inner) := by
  have hrest : ∀ (pattern : Option Expr) n, (∀ p ∈ pattern, p.height ≤ h) →
      Spends m n (fun _ a => ArmWithin h a) (do
        let binding ← if ← eatWord "as" then some <$> identifier "binding name" else pure none
        expect .arrow
        return MatchArm.mk pattern binding (← inner)) := by
    intro pattern n hp
    refine (spends_eatWord _).bind fun _ _ _ _ => spends_ite ?_ ?_
    · exact ((spends_identifier _).map_any some).bind fun _ _ _ _ => (spends_expect _).bind
        fun _ _ _ _ => (hi _).bind fun _ _ _ he => spends_pure ⟨hp, he⟩
    · exact (spends_any none).bind fun _ _ _ _ => (spends_expect _).bind fun _ _ _ _ =>
        (hi _).bind fun _ _ _ he => spends_pure ⟨hp, he⟩
  refine (spends_eatWord _).bind fun n _ _ _ => spends_ite ?_ ?_
  · have hnone : Spends m n (fun _ pattern => pattern = none) (pure none : Reader (Option Expr)) :=
      spends_pure rfl
    exact hnone.bind fun _ pattern _ hp => hrest pattern _ fun p hmem => by
      rw [hp] at hmem
      cases hmem
  · have hsome : Spends m n (fun _ pattern => ∀ p ∈ pattern, p.height ≤ h) (some <$> inner) :=
      (hi n).map fun _ _ he _ hmem => Option.some.inj hmem ▸ he
    exact hsome.bind fun _ pattern _ hp => hrest pattern _ hp

variable (hc : h + 1 ≤ c)
include hc

theorem grows_callOf (function : String) : Grows m c (callOf inner function) := by
  intro n hn
  refine (spends_expect _).bind fun n' _ hn' _ => ?_
  have hargs := (Spends.delimited (fun _ _ _ _ he => he) (fun k (_ : n' ≤ k) => hi k)
    .closeParen).withRecords true
  refine hargs.bind fun k args hk he => spends_pure ?_
  have hle := heightAll_le he
  simp only [height]
  omega

theorem grows_recordOf (owner : String) : Grows m c (recordOf inner owner) := by
  intro n hn
  refine (spends_expect _).bind fun n' _ hn' _ => ?_
  have hfields := (Spends.delimited (fun _ _ _ _ he => he)
    (fun k (_ : n' ≤ k) => spends_labelled hi "field name" k) .closeBrace).withRecords true
  refine hfields.bind fun k fields hk he => spends_pure ?_
  have hle := heightFields_le he
  simp only [height]
  omega

theorem grows_reference : Grows m c (reference inner) := by
  intro n hn
  refine (spends_identifier _).bind fun n₁ name h₁ _ => (spends_eat _).bind fun n₂ _ h₂ _ =>
    spends_ite ?_ ?_
  · refine (spends_identifier _).bind fun n₃ member h₃ _ => spends_peek.bind fun n₄ next h₄ _ => ?_
    split
    · exact grows_callOf hi hc _ _ (by omega)
    · exact spends_pure (by simp only [height]; omega)
  · refine spends_peek.bind fun n₃ next h₃ _ => ?_
    split
    · exact grows_callOf hi hc _ _ (by omega)
    · refine spends_read.bind fun n₄ _ h₄ _ => spends_ite (grows_recordOf hi hc _ _ (by omega)) ?_
      exact spends_pure (by simp only [height]; omega)
    · exact spends_pure (by simp only [height]; omega)

theorem grows_selectOf : Grows m c (selectOf inner) := by
  intro n hn
  refine ((hi n).withRecords false).bind fun n₁ scrutinee h₁ hs => (spends_expect _).bind
    fun n₂ _ h₂ _ => ?_
  have harms := (Spends.delimited (fun _ _ _ _ he => he) (fun k (_ : n₂ ≤ k) => spends_arm hi k)
    .closeBrace).withRecords true
  refine harms.bind fun k arms hk he => spends_unless (spends_pure ?_)
  have hle := heightArms_le he
  simp only [height]
  omega

theorem grows_primary : Grows m c (primary inner) := by
  intro n hn
  have hpos : 1 ≤ c := by omega
  refine spends_peek.bind fun n₁ next h₁ _ => ?_
  split
  · exact spends_skip.bind fun _ _ hk _ => grows_numberOrRange hpos _ _ (by omega)
  · exact spends_skip.bind fun _ _ hk _ => spends_pure (by simp only [height]; omega)
  · exact spends_unless (spends_skip.bind fun _ _ hk _ => grows_rangeFrom hpos _ _ _ (by omega))
  · -- parentheses add nothing to the height
    exact spends_skip.bind fun _ _ hj _ => ((hi _).withRecords true).bind fun _ e hk he =>
      (spends_expect _).bind fun _ _ hk' _ => spends_pure (by omega)
  · exact spends_ite (spends_skip.bind fun _ _ hk _ => grows_selectOf hi hc _ (by omega))
      (grows_reference hi hc _ (by omega))
  · exact spends_expected _

end Parts

section Operators

/-- From an expression in hand the reader goes on to a higher one. -/
def GrowsOn (m c : Nat) (continued : Expr → Reader Expr) : Prop :=
  ∀ e n, c ≤ n → e.height ≤ n → Spends m n (fun k e => e.height ≤ k) (continued e)

theorem growsOn_accessStep {continued : Expr → Reader Expr} (hc : GrowsOn m c continued) :
    GrowsOn m c (accessStep continued) := by
  intro e n hn he
  refine (spends_eat _).bind fun n₁ _ h₁ _ => spends_ite (Spends.descend ?_) ?_
  · refine (spends_identifier _).bind fun n₂ name h₂ _ => hc _ _ (by omega) ?_
    simp only [height]
    omega
  · exact spends_pure (by omega)

theorem growsOn_accesses (levels : Nat) : GrowsOn m c (accesses levels) := by
  induction levels with
  | zero => exact growsOn_accessStep fun _ n hn _ => grows_tooDeep n hn
  | succ levels ih => exact growsOn_accessStep ih

theorem growsOn_chainStep (op? : Symbol → Option BinaryOp) {operand : Reader Expr}
    (ho : Grows m c operand) {continued : Expr → Reader Expr} (hc : GrowsOn m c continued) :
    GrowsOn m c (chainStep op? operand continued) := by
  intro left n hn hleft
  refine spends_peek.bind fun n₁ next h₁ _ => ?_
  split
  · split
    · -- the level spent on the operator makes room for the node
      refine spends_skip.bind fun n₂ _ h₂ _ => Spends.descend ?_
      refine (ho n₂ (by omega)).succ.bind fun n₃ right h₃ hright => hc _ _ (by omega) ?_
      obtain ⟨k, rfl, hright⟩ := hright
      simp only [height]
      omega
    · exact spends_pure (by omega)
  · exact spends_pure (by omega)

theorem growsOn_chain (op? : Symbol → Option BinaryOp) {operand : Reader Expr}
    (ho : Grows m c operand) (levels : Nat) : GrowsOn m c (chain op? operand levels) := by
  induction levels with
  | zero => exact growsOn_chainStep op? ho fun _ n hn _ => grows_tooDeep n hn
  | succ levels ih => exact growsOn_chainStep op? ho ih

theorem grows_joined (op? : Symbol → Option BinaryOp) {operand : Reader Expr}
    (ho : Grows m c operand) (levels : Nat) : Grows m c (joined op? levels operand) :=
  fun n hn => (ho n hn).bind fun k left hk hleft =>
    growsOn_chain op? ho levels left k (Nat.le_trans hn hk) hleft

variable (hc : 1 ≤ c)
include hc

theorem grows_signStep {operand negated : Reader Expr} (ho : Grows m c operand)
    (hn : Grows m c negated) : Grows m c (signStep operand negated) := by
  intro n hcn
  refine (spends_eat .minus).bind fun n₁ _ h₁ _ => spends_ite ?_ (ho _ (by omega))
  refine spends_peek.bind fun n₂ next h₂ _ => ?_
  split
  · exact spends_skip.bind fun _ _ hk _ => grows_numberOrRange hc _ _ (by omega)
  · refine Spends.descend ((hn n₂ (by omega)).succ.bind fun n₃ e h₃ he => spends_pure ?_)
    obtain ⟨k, rfl, he⟩ := he
    simp only [height]
    omega

theorem grows_signed {operand : Reader Expr} (ho : Grows m c operand) (levels : Nat) :
    Grows m c (signed operand levels) := by
  induction levels with
  | zero => exact grows_signStep hc ho grows_tooDeep
  | succ levels ih => exact grows_signStep hc ho ih

end Operators

theorem grows_operators {inner : Reader Expr}
    (hi : ∀ n, Spends m n (fun _ e => e.height ≤ h) inner) (levels : Nat) :
    Grows m (h + 1) (operators levels inner) := by
  have haccess : Grows m (h + 1) (do accesses levels (← primary inner)) := fun n hn =>
    (grows_primary hi (Nat.le_refl _) n hn).bind fun k e hk he =>
      growsOn_accesses levels e k (Nat.le_trans hn hk) he
  have hsigned := grows_signed (Nat.le_add_left 1 h) haccess levels
  exact grows_joined _ (grows_joined _ (grows_joined _ (grows_joined _ hsigned _) _) _) _

/-- Started with some levels left, an expression is no higher than they allow for. -/
theorem spends_expressionAt (levels m n : Nat) :
    Spends m n (fun _ e => e.height ≤ heightLimit m) (expressionAt levels) := by
  induction levels generalizing m n with
  | zero => exact spends_fail _
  | succ levels ih =>
    cases m with
    | zero => exact spends_nested_zero
    | succ m =>
      have hgrows := grows_operators (ih m) levels (heightLimit m + 1) (Nat.le_refl _)
      have hmono : ∀ k k' (e : Expr), k ≤ k' → e.height ≤ k → e.height ≤ k' :=
        fun _ _ _ hle he => Nat.le_trans he hle
      refine (hgrows.nested hmono n).imp fun _ e he => ?_
      simp only [heightLimit]
      omega

theorem spends_expression (n : Nat) :
    Spends maxNesting n (fun _ e => e.height ≤ heightLimit maxNesting) expression :=
  spends_expressionAt maxNesting maxNesting n

/-- No expression that is read is higher than the levels allow for. -/
theorem height_le_of_parse {source : String} {e : Expr} (h : parse source = .ok e) :
    e.height ≤ heightLimit maxNesting := by
  have hspends : Spends maxNesting 0 (fun _ e => e.height ≤ heightLimit maxNesting) (do
      let e ← expression
      expectEnd
      return e) :=
    (spends_expression 0).bind fun _ _ _ he => spends_expectEnd.bind fun _ _ _ _ => spends_pure he
  exact hspends.run h

/-- Two accesses behind parentheses that have used up all levels. -/
theorem exists_higher : ∃ source e, parse source = .ok e ∧ maxNesting < e.height := by
  let signs := List.replicate (maxNesting - 2) '-'
  let source := String.ofList ('(' :: (signs ++ ['x', ')', '.', 'a', '.', 'a']))
  have hhigh : (parse source).toOption.any (maxNesting < ·.height) = true := by decide +kernel
  cases hparse : parse source with
  | error message =>
    rw [hparse] at hhigh
    cases hhigh
  | ok e =>
    rw [hparse] at hhigh
    exact ⟨source, e, hparse, of_decide_eq_true hhigh⟩

end Expr
end TypedFlow
