import Mathlib.Data.Finset.Card
import Mathlib.Data.Finset.Dedup
import TypedFlow.Proofs.Evaluation.Agreement

/-!
# Runs of evaluation

Every body that is opened takes a call or a name away from those that are left, so a run ends
without using up its levels. It leaves the frame as it was, and while it goes on the frame accounts
for the bodies that are open. A higher limit on calls changes no result but that a limit has been
passed. A number of arguments is refused only where it is not accepted, or where a variant without
payload is called.
-/
namespace TypedFlow

namespace Frame
variable {limit opened : Nat} {names others : List String} {start frame inner : Frame}

/-- How many bodies can be opened inside each other: one for each call that is left and for each
name that is not being resolved. -/
def room (limit : Nat) (names : List String) (frame : Frame) : Nat :=
  limit - frame.depth + (names.toFinset \ frame.resolving.toFinset).card

theorem Opens.room_lt (h : frame.Opens limit names inner) :
    inner.room limit names < frame.room limit names := by
  cases h with
  | call hdepth =>
    simp only [room, enterCall]
    omega
  | @resolving name hname hnew =>
    have hsubset : names.toFinset \ (name :: frame.resolving).toFinset ⊂
        names.toFinset \ frame.resolving.toFinset := by
      refine ⟨fun n hn => ?_, fun hall => ?_⟩
      · simp only [Finset.mem_sdiff, List.mem_toFinset, List.mem_cons, not_or] at hn ⊢
        exact ⟨hn.1, hn.2.2⟩
      · have hmem : name ∈ names.toFinset \ frame.resolving.toFinset := by simp [hname, hnew]
        simpa using hall hmem
    exact Nat.add_lt_add_left (Finset.card_lt_card hsubset) _

theorem room_mono (limit : Nat) (frame : Frame) (h : names ⊆ others) :
    frame.room limit names ≤ frame.room limit others := by
  apply Nat.add_le_add_left
  apply Finset.card_le_card
  apply Finset.sdiff_subset_sdiff _ (Finset.Subset.refl _)
  intro name hname
  exact List.mem_toFinset.2 (h (List.mem_toFinset.1 hname))

theorem room_empty_le (limit : Nat) (scope : Scope) :
    Frame.empty.room limit scope.titles ≤ limit + scope.size := by
  have hcard : (scope.titles.toFinset \ Frame.empty.resolving.toFinset).card ≤ scope.size := by
    rw [← Scope.length_titles]
    exact (Finset.card_le_card Finset.sdiff_subset).trans (List.toFinset_card_le _)
  exact Nat.add_le_add_left hcard limit

/-- The frame of a body, when so many are open since the start: no more calls than the limit, no
name twice, and each body that is open is one or the other. -/
def Within (limit : Nat) (frame start : Frame) (opened : Nat) : Prop :=
  frame.depth ≤ limit ∧ frame.resolving.Nodup ∧
    frame.depth + frame.resolving.length = start.depth + start.resolving.length + opened

instance : Decidable (frame.Within limit start opened) := inferInstanceAs (Decidable (_ ∧ _ ∧ _))

theorem Opens.within (h : frame.Opens limit names inner)
    (hwithin : frame.Within limit start opened) : inner.Within limit start (opened + 1) := by
  obtain ⟨hdepth, hnodup, hcount⟩ := hwithin
  cases h with
  | call hless =>
    refine ⟨hless, hnodup, ?_⟩
    simp only [enterCall]
    omega
  | resolving hname hnew =>
    refine ⟨hdepth, List.nodup_cons.2 ⟨hnew, hnodup⟩, ?_⟩
    simp only [beginResolving, List.length_cons]
    omega

end Frame

namespace Evaluation
variable {excused : Prop} {limit higher levels deeper opened watched : Nat}
  {start frame : Frame} {scope : Scope} {alarm inside : Evaluator}

/-- The evaluator for a body, or the alarm if the frame of the body is not as it must be. -/
def guarded (limit : Nat) (start : Frame) (opened : Nat) (alarm inside : Evaluator) : Evaluator :=
  fun scope bindings e => do
    if (← get).Within limit start opened then inside scope bindings e else alarm scope bindings e

/-- Evaluation of which every body is guarded. The alarm also goes off for a body that is opened
when as many are open as there are levels. -/
def evaluateOnGuard (limit : Nat) (start : Frame) (alarm : Evaluator) (opened : Nat) :
    Nat → Evaluator
  | 0 => evaluateExpr limit alarm
  | levels + 1 => evaluateExpr limit
    (guarded limit start (opened + 1) alarm (evaluateOnGuard limit start alarm (opened + 1) levels))

theorem run_guarded (h : frame.Within limit start opened) (bindings : Bindings) (e : Expr) :
    (guarded limit start opened alarm inside scope bindings e).run.run frame =
      (inside scope bindings e).run.run frame := by
  change (if frame.Within limit start opened then inside scope bindings e
    else alarm scope bindings e).run.run frame = _
  rw [if_pos h]

/-- Where there is no room no body is opened, and it does not matter how bodies are evaluated. -/
theorem agrees_of_no_room (hroom : frame.room limit scope.titles = 0) (a b : Evaluator)
    (bindings : Bindings) (e : Expr) :
    Agrees excused frame (evaluateExpr limit a scope bindings e)
      (evaluateExpr limit b scope bindings e) := by
  apply agrees_evaluateExpr
  apply agreeInside_of_bodies
  intro holder inner _ hopens
  have hless := hopens.room_lt
  omega

/-- With as many levels as there is room for bodies the alarm does not go off, and any number of
levels that is not smaller gives the same. -/
theorem agrees_onGuard (alarm : Evaluator) (hwithin : frame.Within limit start opened)
    (hlevels : frame.room limit scope.titles ≤ levels)
    (hwatched : frame.room limit scope.titles ≤ watched) (bindings : Bindings) (e : Expr) :
    Agrees False frame (evaluateAt limit levels scope bindings e)
      (evaluateOnGuard limit start alarm opened watched scope bindings e) := by
  -- A body takes one level, and at least one from the room.
  induction levels generalizing frame scope opened watched bindings e with
  | zero =>
    have hroom := Nat.eq_zero_of_le_zero hlevels
    cases watched with
    | zero => exact agrees_of_no_room hroom _ _ bindings e
    | succ watched => exact agrees_of_no_room hroom _ _ bindings e
  | succ levels ih =>
    cases watched with
    | zero => exact agrees_of_no_room (Nat.eq_zero_of_le_zero hwatched) _ _ bindings e
    | succ watched =>
      apply agrees_evaluateExpr
      apply agreeInside_of_bodies
      intro holder inner hsuffix hopens bindings e
      have hless := hopens.room_lt
      have hsmaller := Frame.room_mono limit inner (Scope.titles_subset hsuffix)
      have hinner := hopens.within hwithin
      have hbody : Agrees False inner (evaluateAt limit levels holder bindings e)
          (evaluateOnGuard limit start alarm (opened + 1) watched holder bindings e) :=
        ih hinner (by omega) (by omega) bindings e
      obtain ⟨result, hrun, hwarranted, hagrees⟩ := hbody
      refine ⟨result, hrun, hwarranted, ?_⟩
      rw [run_guarded hinner]
      exact hagrees

/-- All runs with enough levels are one run, on guard or not. -/
theorem exists_result (hwithin : frame.Within limit start opened) (scope : Scope)
    (bindings : Bindings) (e : Expr) :
    ∃ result, ∀ levels, frame.room limit scope.titles ≤ levels →
      (evaluateAt limit levels scope bindings e).run.run frame = (result, frame) ∧
      ∀ alarm, (evaluateOnGuard limit start alarm opened levels scope bindings e).run.run frame =
        (result, frame) := by
  let room := frame.room limit scope.titles
  have hsame : ∀ alarm levels watched, room ≤ levels → room ≤ watched →
      Agrees False frame (evaluateAt limit levels scope bindings e)
        (evaluateOnGuard limit start alarm opened watched scope bindings e) :=
    fun alarm levels watched hlevels hwatched =>
      agrees_onGuard alarm hwithin hlevels hwatched bindings e
  let silent : Evaluator := fun _ _ _ => throw (.undefinedReference "")
  obtain ⟨result, hrun, -⟩ := hsame silent room room (Nat.le_refl _) (Nat.le_refl _)
  refine ⟨result, fun levels hlevels => ⟨?_, fun alarm => ?_⟩⟩
  · calc (evaluateAt limit levels scope bindings e).run.run frame
      _ = (evaluateOnGuard limit start silent opened room scope bindings e).run.run frame :=
        (hsame silent levels room hlevels (Nat.le_refl _)).run_eq
      _ = (evaluateAt limit room scope bindings e).run.run frame :=
        (hsame silent room room (Nat.le_refl _) (Nat.le_refl _)).run_eq.symm
      _ = (result, frame) := hrun
  · exact (hsame alarm room levels (Nat.le_refl _) hlevels).run_eq.symm.trans hrun

/-- A body that is too deep for the first run has passed a limit there. -/
theorem agrees_of_le (hlimit : limit ≤ higher) (hlevels : levels ≤ deeper) (frame : Frame)
    (scope : Scope) (bindings : Bindings) (e : Expr) :
    Agrees True frame (evaluateAt limit levels scope bindings e)
      (evaluateAt higher deeper scope bindings e) := by
  induction levels generalizing frame scope deeper bindings e with
  | zero =>
    have hthrow : ∀ b, AgreeInside True limit higher scope frame
        (fun _ _ _ => throw (.recursionLimit "" limit)) b := by
      intro b
      refine ⟨hlimit, fun _ => trivial, ?_⟩
      intro holder inner _ _ bindings e
      refine ⟨_, rfl, ?_, .inr ⟨trivial, "", limit, rfl⟩⟩
      intro error heq
      cases heq
      trivial
    cases deeper with
    | zero => exact agrees_evaluateExpr (hthrow _) bindings e
    | succ deeper => exact agrees_evaluateExpr (hthrow _) bindings e
  | succ levels ih =>
    cases deeper with
    | zero => cases hlevels
    | succ deeper =>
      apply agrees_evaluateExpr
      refine ⟨hlimit, fun _ => trivial, ?_⟩
      intro holder inner _ _ bindings e
      exact ih (Nat.le_of_succ_le_succ hlevels) inner holder bindings e

/-- Evaluation may start with more levels than it does. -/
theorem evaluate_of_levels (hlevels : limit + scope.size ≤ levels) (bindings : Bindings)
    (e : Expr) :
    evaluate scope limit bindings e =
      ((evaluateAt limit levels scope bindings e).run.run .empty).1 := by
  have hwithin : Frame.empty.Within limit .empty 0 := ⟨Nat.zero_le limit, List.nodup_nil, rfl⟩
  obtain ⟨result, hruns⟩ := exists_result hwithin scope bindings e
  have hroom := Frame.room_empty_le limit scope
  have hfew : evaluate scope limit bindings e = result := congrArg Prod.fst (hruns _ hroom).1
  have hmany := congrArg Prod.fst (hruns levels (hroom.trans hlevels)).1
  exact hfew.trans hmany.symm

end Evaluation

section Runs
variable {scope : Scope} {limit : Nat} {bindings : Bindings} {e : Expr}
open Evaluation

/-- Evaluation ends with a type or an error within the levels that there is room for, and leaves the
frame as it was. No alarm goes off meanwhile: the frame of each body that is opened is as it must
be, and never are more bodies open than there was room for. -/
theorem evaluation_unwinds {frame : Frame} (hdepth : frame.depth ≤ limit)
    (hnames : frame.resolving.Nodup) (scope : Scope) (bindings : Bindings) (e : Expr) :
    ∃ result : Except EvaluationError Ty,
      (∀ levels, frame.room limit scope.titles ≤ levels →
        (evaluateAt limit levels scope bindings e).run.run frame = (result, frame) ∧
        ∀ alarm, (evaluateOnGuard limit frame alarm 0 levels scope bindings e).run.run frame =
          (result, frame)) ∧
      (frame = .empty → evaluate scope limit bindings e = result) := by
  have hwithin : frame.Within limit frame 0 := ⟨hdepth, hnames, rfl⟩
  obtain ⟨result, hruns⟩ := exists_result hwithin scope bindings e
  refine ⟨result, hruns, ?_⟩
  intro hempty
  subst hempty
  exact congrArg Prod.fst (hruns _ (Frame.room_empty_le limit scope)).1

/-! Two functions that call each other, and two of which one calls the other. -/

def callingScope : Scope := [{
  name := "calls"
  definitions := [("base", .declared (.function "base" [] (.string "base"))),
    ("ping", .declared (.function "ping" [] (.call "pong" []))),
    ("pong", .declared (.function "pong" [] (.call "ping" []))),
    ("step", .declared (.function "step" [] (.call "base" []))),
    ("unit", .declared (.alias "unit" (.call "step" [])))]
  resolved := [] }]

def callingFrame : Frame := ⟨1, ["unit"]⟩

/-- The calls end at the limit, two further in, and the frame is as before. -/
theorem ping_unwinds : callingFrame.depth ≤ 3 ∧ callingFrame.resolving.Nodup ∧
    callingFrame.room 3 callingScope.titles = 6 ∧
    ∃ result : Except EvaluationError Ty, result = .error (.recursionLimit "ping" 3) ∧
      (∀ levels, callingFrame.room 3 callingScope.titles ≤ levels →
        (evaluateAt 3 levels callingScope [] (.call "ping" [])).run.run callingFrame =
          (result, callingFrame) ∧
        ∀ alarm, (evaluateOnGuard 3 callingFrame alarm 0 levels callingScope []
          (.call "ping" [])).run.run callingFrame = (result, callingFrame)) := by
  have hroom : callingFrame.room 3 callingScope.titles = 6 := by decide
  obtain ⟨result, hruns, -⟩ :=
    evaluation_unwinds (show callingFrame.depth ≤ 3 by decide) (by decide) callingScope []
      (.call "ping" [])
  have hresult : ((evaluateAt 3 6 callingScope [] (.call "ping" [])).run.run callingFrame).1 =
      .error (.recursionLimit "ping" 3) := rfl
  have hrun := (hruns 6 (Nat.le_of_eq hroom)).1
  rw [hrun] at hresult
  exact ⟨by decide, by decide, hroom, result, hresult, hruns⟩

/-- Whatever does not pass the limit is the same under a higher one. -/
theorem evaluate_eq_of_higher_limit {higher : Nat} (hle : limit ≤ higher)
    (h : ∀ function depth,
      evaluate scope limit bindings e ≠ .error (.recursionLimit function depth)) :
    evaluate scope higher bindings e = evaluate scope limit bindings e := by
  obtain ⟨result, hrun, -, hagrees⟩ :=
    agrees_of_le hle (Nat.add_le_add_right hle scope.size) .empty scope bindings e
  have hresult : evaluate scope limit bindings e = result := congrArg Prod.fst hrun
  rcases hagrees with hsame | ⟨-, function, depth, hlimit⟩
  · exact (congrArg Prod.fst hsame).trans hresult.symm
  · exact absurd (hresult.trans hlimit) (h function depth)

theorem step_is_same_under_higher_limit : 2 ≤ 64 ∧
    (∀ function depth, evaluate callingScope 2 [] (.call "step" []) ≠
      .error (.recursionLimit function depth)) ∧
    evaluate callingScope 64 [] (.call "step" []) =
      evaluate callingScope 2 [] (.call "step" []) := by
  have hresult : evaluate callingScope 2 [] (.call "step" []) = .ok (.stringLiteral "base") := rfl
  have hlimit : ∀ function depth, evaluate callingScope 2 [] (.call "step" []) ≠
      .error (.recursionLimit function depth) := by
    intro function depth h
    rw [hresult] at h
    cases h
  exact ⟨by decide, hlimit, evaluate_eq_of_higher_limit (by decide) hlimit⟩

/-- A number of arguments is refused by a function or a built-in that does not accept it, or by a
variant that cannot be called. -/
theorem warranted_of_evaluate {error : EvaluationError}
    (h : evaluate scope limit bindings e = .error error) : error.Warranted := by
  obtain ⟨result, hrun, hwarranted, -⟩ := agrees_of_le (Nat.le_refl limit)
    (Nat.le_refl (limit + scope.size)) .empty scope bindings e
  exact hwarranted error ((congrArg Prod.fst hrun).symm.trans h)

def bareLayer : Layer where
  name := "bare"
  definitions := [("E", .declared (.enum "E" [("A", none)]))]
  resolved := [("E", .enum "E" [("A", none)])]

/-- A variant without payload refuses the very number of arguments that it says it expects. -/
theorem bare_variant_refuses_no_arguments :
    ScopeBuilder.build ⟨"bare", [], bareLayer.definitions⟩ = .ok [bareLayer] ∧
      evaluate [bareLayer] defaultCallDepth [] (.call "E::A" []) =
        .error (.arity "E::A" (.exactly 0) 0) ∧
      (EvaluationError.arity "E::A" (.exactly 0) 0).message =
        "'E::A' expects 0 argument(s), but received 0" :=
  ⟨rfl, rfl, by decide +kernel⟩

end Runs
end TypedFlow
