import TypedFlow.Proofs.Evaluation.Judgements

/-!
# Built-in functions of `never`

Arithmetic, `int` and `concat` are strict in `never`: with it among their arguments they give it
back, whatever the others are. The functions of truth values are not; for them `never` is an
argument like any other that has no truth value, and the first such argument is a mismatch.
-/
namespace TypedFlow

/-- The type is one of those that stand for truth values. -/
def Ty.holdsTruth : Ty → Bool
  | .any => true
  | .enum name _ => name == boolName
  | _ => false

namespace Builtin

def isLogical : Builtin → Bool
  | .not | .and | .or => true
  | _ => false

section Arguments
variable {f : Builtin} {args : List Ty}

theorem length_of_accepts_exactly {count : Nat} (harity : f.arity = .exactly count)
    (h : f.arity.accepts args.length = true) : args.length = count := by
  rw [harity] at h
  exact Arity.exactly_accepts_iff.1 h

theorem exists_one (harity : f.arity = .exactly 1) (h : f.arity.accepts args.length = true) :
    ∃ a, args = [a] :=
  List.length_eq_one_iff.1 (length_of_accepts_exactly harity h)

theorem exists_two (harity : f.arity = .exactly 2) (h : f.arity.accepts args.length = true) :
    ∃ a b, args = [a, b] := by
  match args, length_of_accepts_exactly harity h with
  | [a, b], _ => exact ⟨a, b, rfl⟩

theorem apply_of_accepts (h : f.arity.accepts args.length = true) : f.apply args = f.result args :=
  if_pos h

end Arguments

section Strict
variable {a b : Ty}

theorem arithmetic_never (operation : String) (op : NumericSet → NumericSet → NumericSet)
    (h : a = .never ∨ b = .never) : arithmetic operation op a b = .ok .never := by
  apply if_pos
  rcases h with rfl | rfl
  · rfl
  · exact Bool.or_true _

theorem concatenation_never (h : a = .never ∨ b = .never) : concatenation a b = .ok .never := by
  apply if_pos
  rcases h with rfl | rfl
  · rfl
  · exact Bool.or_true _

theorem eq_never_of_mem_two (h : Ty.never ∈ [a, b]) : a = .never ∨ b = .never := by
  rcases List.mem_cons.1 h with rfl | h
  · exact .inl rfl
  · exact .inr (List.mem_singleton.1 h).symm

/-- A function that has nothing to do with truth values gives `never` back. -/
theorem apply_eq_never {f : Builtin} {args : List Ty} (hf : f.isLogical = false)
    (haccepts : f.arity.accepts args.length = true) (hnever : Ty.never ∈ args) :
    f.apply args = .ok .never := by
  rw [apply_of_accepts haccepts]
  have hone : ∀ a, args = [a] → args = [.never] := by
    rintro a rfl
    rw [List.mem_singleton.1 hnever]
  cases f with
  | any | number | string =>
    obtain rfl := List.length_eq_zero_iff.1 (length_of_accepts_exactly rfl haccepts)
    cases hnever
  | never => rfl
  | int =>
    -- There is an argument, since `never` is one.
    have hle : args.length ≤ 1 := of_decide_eq_true haccepts
    have hpos := List.length_pos_of_mem hnever
    obtain ⟨a, ha⟩ := List.length_eq_one_iff.1 (Nat.le_antisymm hle hpos)
    rw [hone a ha]
    rfl
  | neg | abs =>
    obtain ⟨a, ha⟩ := exists_one rfl haccepts
    rw [hone a ha]
    rfl
  | add | sub | mul | min | max =>
    obtain ⟨a, b, rfl⟩ := exists_two rfl haccepts
    exact arithmetic_never _ _ (eq_never_of_mem_two hnever)
  | concat =>
    obtain ⟨a, b, rfl⟩ := exists_two rfl haccepts
    exact concatenation_never (eq_never_of_mem_two hnever)
  | not | and | or => cases hf

end Strict

section Logic
variable {operation : String} {t : Ty}

theorem truthValues_of_holdsTruth (h : t.holdsTruth = true) :
    ∃ values, truthValues operation t = .ok values := by
  cases t with
  | any => exact ⟨_, rfl⟩
  | enum name variants => exact ⟨_, if_pos h⟩
  | _ => cases h

theorem truthValues_eq_error (h : t.holdsTruth = false) :
    truthValues operation t = .error (.typeMismatch (.operation operation) .truthValue t) := by
  cases t with
  | any => cases h
  | enum name variants => exact if_neg (Bool.eq_false_iff.1 h)
  | _ => rfl

theorem logic_eq_error {a b : Ty} (op : Bool → Bool → Bool)
    (h : [a, b].find? (!·.holdsTruth) = some t) :
    logic operation op a b = .error (.typeMismatch (.operation operation) .truthValue t) := by
  unfold logic
  cases ha : a.holdsTruth with
  | false =>
    obtain rfl : a = t := by simpa [ha] using h
    rw [truthValues_eq_error ha]
    rfl
  | true =>
    obtain ⟨values, hvalues⟩ : ∃ values, truthValues operation a = .ok values :=
      truthValues_of_holdsTruth ha
    obtain ⟨hb, rfl⟩ : b.holdsTruth = false ∧ b = t := by simpa [ha] using h
    rw [hvalues, truthValues_eq_error hb]
    rfl

/-- A function of truth values refuses the first argument that has none. -/
theorem apply_eq_mismatch {f : Builtin} {args : List Ty} (hf : f.isLogical = true)
    (haccepts : f.arity.accepts args.length = true) (h : args.find? (!·.holdsTruth) = some t) :
    f.apply args = .error (.typeMismatch (.operation f.name) .truthValue t) := by
  rw [apply_of_accepts haccepts]
  cases f with
  | not =>
    obtain ⟨a, rfl⟩ := exists_one rfl haccepts
    obtain ⟨ha, rfl⟩ : a.holdsTruth = false ∧ a = t := by simpa using h
    change negation _ a = _
    rw [negation, truthValues_eq_error ha]
    rfl
  | and | or =>
    obtain ⟨a, b, rfl⟩ := exists_two rfl haccepts
    exact logic_eq_error _ h
  | _ => cases hf

end Logic

/-- With `never` among the arguments a call gives `never` unless it is about truth values. -/
theorem apply_eq_never_iff {f : Builtin} {args : List Ty}
    (haccepts : f.arity.accepts args.length = true) (hnever : Ty.never ∈ args) :
    f.apply args = .ok .never ↔ f.isLogical = false := by
  refine ⟨fun h => ?_, fun hf => apply_eq_never hf haccepts hnever⟩
  rw [Bool.eq_false_iff]
  intro hf
  obtain ⟨t, ht⟩ := Option.isSome_iff_exists.1
    (List.find?_isSome.2 ⟨.never, hnever, rfl⟩ : (args.find? (!·.holdsTruth)).isSome = true)
  rw [apply_eq_mismatch hf haccepts ht] at h
  cases h

/-- So the negation of `never` is a mismatch, where its negative would be `never`. -/
theorem not_never_is_mismatch :
    Builtin.not.apply [.never] = .error (.typeMismatch (.operation "not") .truthValue .never) :=
  apply_eq_mismatch rfl rfl rfl

end Builtin
end TypedFlow
