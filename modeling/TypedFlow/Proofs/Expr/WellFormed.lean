import TypedFlow.Expr.Parse
import TypedFlow.Proofs.Source.Reader

/-!
# Well-formed expressions

Every expression that is read is well formed: its names are names, its ranges exclude no end that
they leave out, and its matches have arms.
-/
namespace TypedFlow

def RangeLiteral.WellFormed (r : RangeLiteral) : Prop :=
  (r.min = none → r.minInclusive = true) ∧ (r.max = none → r.maxInclusive = true)

/-- A name, or a name with its owner. -/
def IsFunctionName (s : String) : Prop :=
  IsName s ∨ ∃ owner member, IsName owner ∧ IsName member ∧ s = pathName owner member

namespace Expr

mutual

def WellFormed : Expr → Prop
  | .number _ | .string _ => True
  | .range r => r.WellFormed
  | .name n => IsName n
  | .path owner member => IsName owner ∧ IsName member
  | .field target n => WellFormed target ∧ IsName n
  | .call function args => IsFunctionName function ∧ WellFormedAll args
  | .record n fields => IsName n ∧ WellFormedFields fields
  | .binary _ left right => WellFormed left ∧ WellFormed right
  | .negate operand => WellFormed operand
  | .select scrutinee arms => WellFormed scrutinee ∧ arms ≠ [] ∧ WellFormedArms arms

def WellFormedAll : List Expr → Prop
  | [] => True
  | e :: exprs => WellFormed e ∧ WellFormedAll exprs

def WellFormedFields : List (String × Expr) → Prop
  | [] => True
  | (label, e) :: fields => IsName label ∧ WellFormed e ∧ WellFormedFields fields

def WellFormedArms : List (MatchArm Expr) → Prop
  | [] => True
  | ⟨none, binding, body⟩ :: arms =>
    (∀ n ∈ binding, IsName n) ∧ WellFormed body ∧ WellFormedArms arms
  | ⟨some pattern, binding, body⟩ :: arms =>
    WellFormed pattern ∧ (∀ n ∈ binding, IsName n) ∧ WellFormed body ∧ WellFormedArms arms

end

/-- What is asked of one arm of a match. -/
def ArmWellFormed (arm : MatchArm Expr) : Prop :=
  (∀ p ∈ arm.pattern, p.WellFormed) ∧ (∀ n ∈ arm.binding, IsName n) ∧ arm.body.WellFormed

theorem wellFormedAll_iff {exprs : List Expr} :
    WellFormedAll exprs ↔ ∀ e ∈ exprs, e.WellFormed := by
  induction exprs with
  | nil => simp [WellFormedAll]
  | cons e exprs ih => simp [WellFormedAll, ih]

theorem wellFormedFields_iff {fields : List (String × Expr)} :
    WellFormedFields fields ↔ ∀ f ∈ fields, IsName f.1 ∧ f.2.WellFormed := by
  induction fields with
  | nil => simp [WellFormedFields]
  | cons f fields ih => simp [WellFormedFields, ih, and_assoc]

theorem wellFormedArms_iff {arms : List (MatchArm Expr)} :
    WellFormedArms arms ↔ ∀ arm ∈ arms, ArmWellFormed arm := by
  induction arms with
  | nil => simp [WellFormedArms]
  | cons arm arms ih =>
    obtain ⟨pattern, binding, body⟩ := arm
    cases pattern <;> simp [WellFormedArms, ArmWellFormed, ih, and_assoc]

section Reading
open Reader

/-- The reader yields well-formed expressions. -/
abbrev Reads (r : Reader Expr) : Prop := Yields r WellFormed

theorem reads_chainStep (op? : Symbol → Option BinaryOp) {operand : Reader Expr}
    {continued : Expr → Reader Expr} (ho : Reads operand)
    (hc : ∀ left, left.WellFormed → Reads (continued left)) {left : Expr} (hl : left.WellFormed) :
    Reads (chainStep op? operand continued left) := by
  refine yields_peek.bind fun next _ => ?_
  split
  · split
    · refine yields_skip.bind fun _ _ => yields_descend.bind fun _ _ => ho.bind fun right hr => ?_
      exact hc _ ⟨hl, hr⟩
    · exact yields_pure hl
  · exact yields_pure hl

theorem reads_chain (op? : Symbol → Option BinaryOp) {operand : Reader Expr} (ho : Reads operand)
    (levels : Nat) {left : Expr} (hl : left.WellFormed) :
    Reads (chain op? operand levels left) := by
  induction levels generalizing left with
  | zero => exact reads_chainStep op? ho (fun _ _ => yields_fail _) hl
  | succ levels ih => exact reads_chainStep op? ho (fun _ hl => ih hl) hl

theorem reads_joined (op? : Symbol → Option BinaryOp) (levels : Nat) {operand : Reader Expr}
    (ho : Reads operand) : Reads (joined op? levels operand) :=
  ho.bind fun _ hl => reads_chain op? ho levels hl

theorem reads_accessStep {continued : Expr → Reader Expr}
    (hc : ∀ target, target.WellFormed → Reads (continued target)) {target : Expr}
    (ht : target.WellFormed) : Reads (accessStep continued target) :=
  (yields_eat .dot).bind fun _ _ => yields_ite
    (fun _ => yields_descend.bind fun _ _ => (yields_identifier _).bind fun _ hn => hc _ ⟨ht, hn⟩)
    fun _ => yields_pure ht

theorem reads_accesses (levels : Nat) {target : Expr} (ht : target.WellFormed) :
    Reads (accesses levels target) := by
  induction levels generalizing target with
  | zero => exact reads_accessStep (fun _ _ => yields_fail _) ht
  | succ levels ih => exact reads_accessStep (fun _ ht => ih ht) ht

theorem reads_rangeFrom {min : Option Number} {mark : RangeMark}
    (hmin : min = none → mark.minInclusive = true) : Reads (rangeFrom min mark) := by
  have hrest : ∀ max : Option Number, Reads (do
      if max.isNone && !mark.maxInclusive then fail .rangeWithoutMax
      return .range ⟨min, max, mark.minInclusive, mark.maxInclusive⟩) := by
    refine fun max => yields_unless fun hc => yields_pure ⟨hmin, ?_⟩
    rintro rfl
    simpa using hc
  refine yields_peek.bind fun next _ => yields_peekSecond.bind fun second _ => ?_
  dsimp only
  split
  · exact yields_skip.bind fun _ _ => (yields_pure trivial).bind fun max (_ : True) => hrest max
  · exact yields_skip.bind fun _ _ => yields_skip.bind fun _ _ =>
      (yields_pure trivial).bind fun max (_ : True) => hrest max
  · exact (yields_pure trivial).bind fun max (_ : True) => hrest max

theorem reads_numberOrRange (value : Number) : Reads (numberOrRange value) := by
  refine yields_peek.bind fun next _ => ?_
  split
  · exact yields_skip.bind fun _ _ => reads_rangeFrom fun h => by cases h
  · exact yields_pure trivial

variable {inner : Reader Expr} (hi : Reads inner)
include hi

theorem reads_callOf {function : String} (hf : IsFunctionName function) :
    Reads (callOf inner function) :=
  (yields_expect _).bind fun _ _ => ((hi.delimited .closeParen).withRecords true).bind
    fun _ hargs => yields_pure ⟨hf, wellFormedAll_iff.2 hargs⟩

theorem yields_labelled (role : String) :
    Yields (labelled inner role) fun field => IsName field.1 ∧ field.2.WellFormed :=
  (yields_identifier role).bind fun _ hn => (yields_expect .colon).bind fun _ _ =>
    hi.bind fun _ he => yields_pure ⟨hn, he⟩

theorem reads_recordOf {owner : String} (ho : IsName owner) : Reads (recordOf inner owner) :=
  (yields_expect _).bind fun _ _ =>
    (((yields_labelled hi _).delimited .closeBrace).withRecords true).bind
      fun _ hfields => yields_pure ⟨ho, wellFormedFields_iff.2 hfields⟩

theorem reads_reference : Reads (reference inner) := by
  refine (yields_identifier _).bind fun n hn => (yields_eat _).bind fun _ _ => yields_ite ?_ ?_
  · intro _
    refine (yields_identifier _).bind fun member hm => yields_peek.bind fun _ _ => ?_
    split
    · exact reads_callOf hi (.inr ⟨n, member, hn, hm, rfl⟩)
    · exact yields_pure ⟨hn, hm⟩
  · intro _
    refine yields_peek.bind fun _ _ => ?_
    split
    · exact reads_callOf hi (.inl hn)
    · exact yields_read.bind fun _ _ => yields_ite (fun _ => reads_recordOf hi hn)
        fun _ => yields_pure hn
    · exact yields_pure hn

theorem yields_arm : Yields (arm inner) ArmWellFormed := by
  have hbody : ∀ pattern binding, (∀ p ∈ pattern, p.WellFormed) → (∀ n ∈ binding, IsName n) →
      Yields (do
        expect .arrow
        return ⟨pattern, binding, ← inner⟩) ArmWellFormed :=
    fun _ _ hp hb => (yields_expect .arrow).bind fun _ _ =>
      hi.bind fun _ hbody => yields_pure ⟨hp, hb, hbody⟩
  have hbinding : ∀ pattern, (∀ p ∈ pattern, p.WellFormed) → Yields (do
      let binding ← if ← eatWord "as" then some <$> identifier "binding name" else pure none
      expect .arrow
      return ⟨pattern, binding, ← inner⟩) ArmWellFormed := by
    refine fun pattern hp => (yields_eatWord _).bind fun _ _ => yields_ite (fun _ => ?_) fun _ => ?_
    · exact ((yields_identifier _).map fun _ hn _ h => Option.some.inj h ▸ hn).bind
        fun binding hb => hbody pattern binding hp hb
    · exact hbody pattern none hp fun _ h => by cases h
  refine (yields_eatWord _).bind fun _ _ => yields_ite (fun _ => ?_) fun _ => ?_
  · exact hbinding none fun _ h => by cases h
  · exact (hi.map fun _ he _ h => Option.some.inj h ▸ he).bind fun pattern hp => hbinding pattern hp

theorem reads_selectOf : Reads (selectOf inner) := by
  refine (hi.withRecords false).bind fun scrutinee hs => (yields_expect _).bind fun _ _ => ?_
  refine (((yields_arm hi).delimited .closeBrace).withRecords true).bind fun arms harms => ?_
  refine yields_unless fun hne => yields_pure ⟨hs, ?_, wellFormedArms_iff.2 harms⟩
  rintro rfl
  exact hne rfl

theorem reads_primary : Reads (primary inner) := by
  refine yields_peek.bind fun next _ => ?_
  split
  · exact yields_skip.bind fun _ _ => reads_numberOrRange _
  · exact yields_skip.bind fun _ _ => yields_pure trivial
  · refine yields_unless fun hmin => yields_skip.bind fun _ _ => reads_rangeFrom fun _ => ?_
    simpa using hmin
  · exact yields_skip.bind fun _ _ => (hi.withRecords true).bind fun _ he =>
      (yields_expect _).bind fun _ _ => yields_pure he
  · exact yields_ite (fun _ => yields_skip.bind fun _ _ => reads_selectOf hi)
      fun _ => reads_reference hi
  · exact yields_expected _

omit hi

theorem reads_signStep {operand negated : Reader Expr} (ho : Reads operand) (hn : Reads negated) :
    Reads (signStep operand negated) := by
  refine (yields_eat .minus).bind fun _ _ => yields_ite (fun _ => ?_) fun _ => ho
  refine yields_peek.bind fun next _ => ?_
  split
  · exact yields_skip.bind fun _ _ => reads_numberOrRange _
  · exact yields_descend.bind fun _ _ => hn.bind fun _ he => yields_pure he

theorem reads_signed {operand : Reader Expr} (ho : Reads operand) (levels : Nat) :
    Reads (signed operand levels) := by
  induction levels with
  | zero => exact reads_signStep ho (yields_fail _)
  | succ levels ih => exact reads_signStep ho ih

theorem reads_operators (hi : Reads inner) (levels : Nat) : Reads (operators levels inner) := by
  refine reads_joined _ _ (reads_joined _ _ (reads_joined _ _ (reads_joined _ _ ?_)))
  exact reads_signed ((reads_primary hi).bind fun _ he => reads_accesses levels he) levels

theorem reads_expressionAt (levels : Nat) : Reads (expressionAt levels) := by
  induction levels with
  | zero => exact yields_fail _
  | succ levels ih => exact (reads_operators ih levels).nested

theorem reads_expression : Reads expression := reads_expressionAt maxNesting

theorem yields_expectEnd : Yields expectEnd fun _ => True :=
  yields_peek.bind fun _ _ => yields_ite (fun _ => yields_pure trivial) fun _ => yields_expected _

/-- Every expression that is read is well formed. -/
theorem wellFormed_of_parse {source : String} {e : Expr} (h : parse source = .ok e) :
    e.WellFormed := by
  have hreads : Reads (do
      let e ← expression
      expectEnd
      return e) :=
    reads_expression.bind fun _ he => yields_expectEnd.bind fun _ _ => yields_pure he
  exact hreads.run h

end Reading

end Expr
end TypedFlow
