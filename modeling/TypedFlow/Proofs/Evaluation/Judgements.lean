import TypedFlow.Evaluation.Basic

/-!
# Judgements on types

What built-in functions, operators and accesses say about the types they are given. They fail only
by a judgement on types or numbers of arguments, never because of a name or a call. A number of
arguments that is refused is one that is not accepted, except that a variant without payload refuses
all calls.
-/
namespace TypedFlow

/-- An error that refuses a number of arguments has a reason to. -/
def EvaluationError.Warranted : EvaluationError → Prop
  | .arity function accepted found => accepted.accepts found = false ∨
    (Scope.pathParts? function).isSome = true ∧ accepted = .exactly 0 ∧ found = 0
  | _ => True

def EvaluationError.IsJudgement : EvaluationError → Prop
  | .typeMismatch .. => True
  | .arity function accepted found => Warranted (.arity function accepted found)
  | _ => False

theorem EvaluationError.IsJudgement.warranted {e : EvaluationError} (h : e.IsJudgement) :
    e.Warranted := by
  cases e with
  | arity => exact h
  | _ => trivial

theorem Arity.exactly_accepts_iff {count found : Nat} :
    (exactly count).accepts found = true ↔ found = count := by
  change (decide (count ≤ found) && decide (found ≤ count)) = true ↔ found = count
  rw [Bool.and_eq_true, decide_eq_true_iff, decide_eq_true_iff]
  omega

/-- The result is a value or a judgement. -/
def Judged {α : Type} : Except EvaluationError α → Prop
  | .ok _ => True
  | .error e => e.IsJudgement

section Judged
variable {α β : Type}

theorem Judged.bind {result : Except EvaluationError α} {f : α → Except EvaluationError β}
    (h : Judged result) (hf : ∀ a, Judged (f a)) : Judged (result >>= f) := by
  cases result with
  | ok a => exact hf a
  | error e => exact h

theorem judged_mapM {f : α → Except EvaluationError β} {items : List α}
    (h : ∀ a ∈ items, Judged (f a)) : Judged (items.mapM f) := by
  induction items with
  | nil => trivial
  | cons a items ih =>
    rw [List.forall_mem_cons] at h
    rw [List.mapM_cons]
    exact h.1.bind fun _ => (ih h.2).bind fun _ => trivial

end Judged

namespace Builtin

theorem judged_numericOperand (operation : String) (t : Ty) :
    Judged (numericOperand operation t) := by
  unfold numericOperand
  split <;> trivial

theorem judged_arithmetic (operation : String) (op : NumericSet → NumericSet → NumericSet)
    (a b : Ty) : Judged (arithmetic operation op a b) := by
  unfold arithmetic
  split
  · trivial
  · split
    · trivial
    · exact (judged_numericOperand operation a).bind fun _ =>
        (judged_numericOperand operation b).bind fun _ => trivial

theorem judged_unaryArithmetic (operation : String) (op : NumericSet → NumericSet) (a : Ty) :
    Judged (unaryArithmetic operation op a) := by
  unfold unaryArithmetic
  split
  · trivial
  · split
    · trivial
    · exact (judged_numericOperand operation a).bind fun _ => trivial

theorem judged_truthValues (operation : String) (a : Ty) : Judged (truthValues operation a) := by
  unfold truthValues
  split
  · trivial
  · split <;> trivial
  · trivial

theorem judged_logic (operation : String) (op : Bool → Bool → Bool) (a b : Ty) :
    Judged (logic operation op a b) :=
  (judged_truthValues operation a).bind fun _ =>
    (judged_truthValues operation b).bind fun _ => trivial

theorem judged_integersOf (a : Ty) : Judged (integersOf a) := by
  unfold integersOf
  split
  · trivial
  · trivial
  · exact (judged_numericOperand _ _).bind fun _ => trivial

theorem judged_stringOperand (a : Ty) : Judged (stringOperand a) := by
  unfold stringOperand
  split <;> trivial

theorem judged_concatenation (a b : Ty) : Judged (concatenation a b) := by
  unfold concatenation
  split
  · trivial
  · refine (judged_stringOperand a).bind fun _ => (judged_stringOperand b).bind fun _ => ?_
    split <;> trivial

theorem judged_result (f : Builtin) (args : List Ty) : Judged (f.result args) := by
  unfold result
  split
  case h_6 => exact judged_integersOf _
  case h_7 | h_8 | h_9 | h_12 | h_13 => exact judged_arithmetic ..
  case h_10 | h_11 => exact judged_unaryArithmetic ..
  case h_14 => exact (judged_truthValues ..).bind fun _ => trivial
  case h_15 | h_16 => exact judged_logic ..
  case h_17 => exact judged_concatenation ..
  all_goals trivial

theorem judged_apply (f : Builtin) (args : List Ty) : Judged (f.apply args) := by
  unfold apply
  split
  · exact judged_result f args
  · rename_i haccepts
    exact .inl (Bool.eq_false_iff.2 haccepts)

end Builtin

namespace Evaluation
open Builtin

theorem judged_fieldType (target : Ty) (field : String) : Judged (fieldType target field) := by
  have hmember : ∀ member, Judged (memberField target field member) := by
    intro member
    unfold memberField
    split
    · cases Entries.get? _ field <;> trivial
    · trivial
  unfold fieldType
  split
  · trivial
  · trivial
  · exact (judged_mapM fun member _ => hmember member).bind fun _ => trivial

theorem judged_binaryType (op : BinaryOp) (a b : Ty) : Judged (binaryType op a b) := by
  cases op with
  | union => trivial
  | intersection => trivial
  | add => exact judged_arithmetic ..
  | subtract => exact judged_arithmetic ..
  | multiply => exact judged_arithmetic ..

theorem judged_variantCall {path owner member : String}
    (h : Scope.pathParts? path = some (owner, member)) (payload : Option Ty) (args : List Ty) :
    Judged (variantCall path owner member payload args) := by
  unfold variantCall
  split
  · cases args with
    | nil => exact .inr ⟨Option.isSome_of_eq_some h, rfl, rfl⟩
    | cons => exact .inl rfl
  · split
    · trivial
    · dsimp only
      split <;> trivial
  · rename_i hargs
    have hcount : args.length ≠ 1 := fun hlength =>
      let ⟨arg, hsingle⟩ := List.length_eq_one_iff.1 hlength
      hargs arg hsingle
    exact .inl (Bool.eq_false_iff.2 (mt Arity.exactly_accepts_iff.1 hcount))

end Evaluation
end TypedFlow
