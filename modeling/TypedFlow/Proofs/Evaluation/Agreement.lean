import TypedFlow.Proofs.Effects
import TypedFlow.Proofs.Evaluation.Judgements
import TypedFlow.Proofs.Scope.Trails

/-!
# Agreement of two runs

An expression is evaluated by one evaluator for the bodies of the definitions it opens. Two runs
from the same frame agree if their evaluators agree wherever a body is opened; and a body is opened
only in a frame that has one call more, within the limit, or one name more, which was not being
resolved before. A run leaves the frame as it has found it, whatever its result is, and refuses
numbers of arguments only where that is warranted.
-/
namespace TypedFlow

/-- The names that the definitions of a scope bear. -/
def Scope.titles (scope : Scope) : List String :=
  scope.flatMap fun layer => layer.definitions.map (·.2.name)

/-- How the frame of a body differs from the one in which the body is opened. -/
inductive Frame.Opens (limit : Nat) (names : List String) (frame : Frame) : Frame → Prop
  | call : frame.depth < limit → Opens limit names frame frame.enterCall
  | resolving {name : String} : name ∈ names → name ∉ frame.resolving →
      Opens limit names frame (frame.beginResolving name)

theorem Frame.Opens.mono {limit : Nat} {names others : List String} {frame inner : Frame}
    (h : frame.Opens limit names inner) (hsubset : names ⊆ others) :
    frame.Opens limit others inner := by
  cases h with
  | call hdepth => exact .call hdepth
  | resolving hname hnew => exact .resolving (hsubset hname) hnew

namespace Scope
variable {scope holder : Scope} {n : String} {d : Definition}

theorem titles_subset (h : holder <:+ scope) : holder.titles ⊆ scope.titles := by
  intro name hname
  obtain ⟨layer, hlayer, hname⟩ := List.mem_flatMap.1 hname
  exact List.mem_flatMap.2 ⟨layer, h.subset hlayer, hname⟩

theorem name_mem_titles (h : scope.lookup n = some (d, holder)) : d.name ∈ scope.titles := by
  obtain ⟨hsuffix, hlocal⟩ := of_lookup h
  cases holder with
  | nil => cases hlocal
  | cons layer outer =>
    have hmem : (n, d) ∈ layer.definitions := Entries.mem_of_get? hlocal
    exact List.mem_flatMap.2 ⟨layer, hsuffix.subset List.mem_cons_self,
      List.mem_map.2 ⟨(n, d), hmem, rfl⟩⟩

theorem length_titles (scope : Scope) : scope.titles.length = scope.size := by
  induction scope with
  | nil => rfl
  | cons layer outer ih =>
    rw [titles, List.flatMap_cons, List.length_append, List.length_map, size]
    exact congrArg _ ih

end Scope

namespace Evaluation
variable {α β : Type}

/-- The result is that a limit has been passed. -/
def AtLimit (result : Except EvaluationError α) : Prop :=
  ∃ function depth, result = .error (.recursionLimit function depth)

/-- From this frame the second computation does what the first does, which leaves the frame as it
is. If that is excused, the second may go on where the first passes a limit. -/
def Agrees (excused : Prop) (frame : Frame) (x y : Evaluation α) : Prop :=
  ∃ result, x.run.run frame = (result, frame) ∧ (∀ e, result = .error e → e.Warranted) ∧
    (y.run.run frame = (result, frame) ∨ excused ∧ AtLimit result)

section Rules
variable {excused : Prop} {frame : Frame} {x y : Evaluation α} {e : EvaluationError}

theorem agrees_pure (excused : Prop) (frame : Frame) (a : α) :
    Agrees excused frame (pure a) (pure a) := by
  refine ⟨.ok a, rfl, ?_, .inl rfl⟩
  intro e h
  cases h

theorem agrees_lift {result : Except EvaluationError α} (h : ∀ e, result = .error e → e.Warranted) :
    Agrees excused frame (lift result) (lift result) :=
  ⟨result, rfl, h, .inl rfl⟩

theorem agrees_judged {result : Except EvaluationError α} (h : Judged result) :
    Agrees excused frame (lift result) (lift result) := by
  apply agrees_lift
  intro e he
  rw [he] at h
  exact EvaluationError.IsJudgement.warranted h

theorem agrees_throw (h : e.Warranted) :
    Agrees excused frame (throw e : Evaluation α) (throw e) := by
  refine ⟨.error e, rfl, ?_, .inl rfl⟩
  intro other heq
  cases heq
  exact h

theorem Agrees.bind {f g : α → Evaluation β} (h : Agrees excused frame x y)
    (hf : ∀ a, Agrees excused frame (f a) (g a)) :
    Agrees excused frame (x >>= f) (y >>= g) := by
  obtain ⟨result, hx, hwarranted, hy⟩ := h
  cases result with
  | ok a =>
    have hsame : y.run.run frame = (.ok a, frame) := by
      apply hy.resolve_right
      rintro ⟨-, function, depth, hlimit⟩
      cases hlimit
    obtain ⟨result, hrest, hwarranted, hagrees⟩ := hf a
    refine ⟨result, ?_, hwarranted, ?_⟩
    · rw [run_bind_ok (congrArg Prod.fst hx), hx]
      exact hrest
    · rw [run_bind_ok (congrArg Prod.fst hsame), hsame]
      exact hagrees
  | error e =>
    refine ⟨.error e, ?_, ?_, ?_⟩
    · rw [run_bind_error (congrArg Prod.fst hx), hx]
    · intro other heq
      cases heq
      exact hwarranted e rfl
    · rcases hy with hsame | ⟨hexcused, function, depth, hlimit⟩
      · left
        rw [run_bind_error (congrArg Prod.fst hsame), hsame]
      · right
        cases hlimit
        exact ⟨hexcused, function, depth, rfl⟩

theorem Agrees.run_eq (h : Agrees False frame x y) : x.run.run frame = y.run.run frame := by
  obtain ⟨result, hx, -, hy⟩ := h
  exact hx.trans (hy.resolve_right fun hfalse => hfalse.1).symm

theorem agrees_unless {c : Prop} [Decidable c] {f g : Unit → Evaluation α}
    (he : c → e.Warranted) (h : ¬c → Agrees excused frame (f ()) (g ())) :
    Agrees excused frame (if c then throw e >>= f else f ())
      (if c then throw e >>= g else g ()) := by
  by_cases hc : c
  · rw [if_pos hc, if_pos hc]
    exact agrees_throw (he hc)
  · rw [if_neg hc, if_neg hc]
    exact h hc

theorem agrees_between {opening closing : Frame → Frame}
    (hclosing : closing (opening frame) = frame) (h : Agrees excused (opening frame) x y) :
    Agrees excused frame (between opening closing x) (between opening closing y) := by
  have hrun : ∀ z : Evaluation α, (between opening closing z).run.run frame =
      ((z.run.run (opening frame)).1, closing (z.run.run (opening frame)).2) := fun _ => rfl
  obtain ⟨result, hx, hwarranted, hy⟩ := h
  refine ⟨result, ?_, hwarranted, ?_⟩
  · rw [hrun, hx, hclosing]
  · apply hy.imp_left
    intro hsame
    rw [hrun, hsame, hclosing]

/-- With the same limit nothing has to be excused. -/
theorem agrees_withinCall {limit higher : Nat} (hle : limit ≤ higher)
    (hexcused : limit < higher → excused) (function : String)
    (h : frame.depth < limit → Agrees excused frame.enterCall x y) :
    Agrees excused frame (withinCall limit function x) (withinCall higher function y) := by
  have hrun : ∀ (bound : Nat) (z : Evaluation α), (withinCall bound function z).run.run frame =
      (if bound ≤ frame.depth then
        throw (.recursionLimit function bound) >>= fun _ : Unit => between .enterCall .leaveCall z
      else between .enterCall .leaveCall z).run.run frame := fun _ _ => rfl
  by_cases hdepth : limit ≤ frame.depth
  · have hx : (withinCall limit function x).run.run frame =
        (.error (.recursionLimit function limit), frame) := by
      rw [hrun, if_pos hdepth]
      rfl
    refine ⟨_, hx, ?_, ?_⟩
    · intro e he
      cases he
      trivial
    · rcases Nat.eq_or_lt_of_le hle with rfl | hlt
      · left
        rw [hrun, if_pos hdepth]
        rfl
      · exact .inr ⟨hexcused hlt, function, limit, rfl⟩
  · have hbody : Agrees excused frame (between .enterCall .leaveCall x)
        (between .enterCall .leaveCall y) := agrees_between rfl (h (Nat.lt_of_not_le hdepth))
    obtain ⟨result, hx, hwarranted, hy⟩ := hbody
    refine ⟨result, ?_, hwarranted, ?_⟩
    · rw [hrun, if_neg hdepth]
      exact hx
    · rw [hrun, if_neg (by omega)]
      exact hy

theorem agrees_whileResolving {name : String}
    (h : name ∉ frame.resolving → Agrees excused (frame.beginResolving name) x y) :
    Agrees excused frame (whileResolving name x) (whileResolving name y) := by
  apply agrees_unless (e := .recursionLimit name frame.resolving.length)
    (f := fun _ => between (.beginResolving name) .endResolving x)
    (g := fun _ => between (.beginResolving name) .endResolving y) (fun _ => trivial)
  intro hnew
  exact agrees_between rfl (h fun hmem => hnew (List.contains_iff_mem.2 hmem))

theorem agrees_mapM {f g : α → Evaluation β} {items : List α}
    (h : ∀ a ∈ items, Agrees excused frame (f a) (g a)) :
    Agrees excused frame (items.mapM f) (items.mapM g) := by
  induction items with
  | nil => exact agrees_pure _ _ _
  | cons a items ih =>
    rw [List.forall_mem_cons] at h
    rw [List.mapM_cons, List.mapM_cons]
    exact h.1.bind fun _ => (ih h.2).bind fun _ => agrees_pure _ _ _

end Rules

section Step
variable {excused : Prop} {limit higher : Nat} {frame : Frame} {scope holder : Scope}
  {a b : Evaluator}

/-- The evaluators agree in every body that can be opened from the frame, and if the second run has
a higher limit than the first, that is excused. -/
structure AgreeInside (excused : Prop) (limit higher : Nat) (scope : Scope) (frame : Frame)
    (a b : Evaluator) : Prop where
  le : limit ≤ higher
  excuse : limit < higher → excused
  bodies : ∀ ⦃holder : Scope⦄ ⦃inner : Frame⦄, holder <:+ scope →
    frame.Opens limit scope.titles inner → ∀ bindings e,
      Agrees excused inner (a holder bindings e) (b holder bindings e)

theorem agreeInside_of_bodies (h : ∀ ⦃holder : Scope⦄ ⦃inner : Frame⦄, holder <:+ scope →
    frame.Opens limit scope.titles inner → ∀ bindings e,
      Agrees excused inner (a holder bindings e) (b holder bindings e)) :
    AgreeInside excused limit limit scope frame a b :=
  ⟨Nat.le_refl limit, fun hlt => absurd hlt (Nat.lt_irrefl limit), h⟩

theorem agrees_bindArguments (hbody : ∀ e, Agrees excused frame (a holder [] e) (b holder [] e))
    (function : String) (params : List (String × Expr)) (args : List Ty) (locals : Bindings) :
    Agrees excused frame (bindArguments a holder function params args locals)
      (bindArguments b holder function params args locals) := by
  induction params generalizing args locals with
  | nil => exact agrees_pure _ _ locals
  | cons param params ih =>
    cases args with
    | nil => exact agrees_pure _ _ locals
    | cons arg args =>
      apply (hbody param.2).bind
      intro declared
      exact agrees_unless (fun _ => trivial) fun _ => ih args _

section Opening
variable (h : AgreeInside excused limit higher scope frame a b)
include h

theorem agrees_callFunction (hsuffix : holder <:+ scope) (function : String)
    (params : List (String × Expr)) (body : Expr) (args : List Ty) :
    Agrees excused frame (callFunction limit a holder function params body args)
      (callFunction higher b holder function params body args) := by
  unfold callFunction
  apply agrees_unless
  · intro hcount
    exact .inl (Bool.eq_false_iff.2 (mt Arity.exactly_accepts_iff.1 hcount))
  intro _
  apply agrees_withinCall h.le h.excuse
  intro hdepth
  have hbody := h.bodies hsuffix (.call hdepth)
  exact (agrees_bindArguments (hbody []) function params args []).bind fun locals =>
    hbody locals body

theorem agrees_resolvedOr (hsuffix : holder <:+ scope) {name : String} (hname : name ∈ scope.titles)
    {x y : Evaluation Ty}
    (hresolution : (∀ bindings e, Agrees excused (frame.beginResolving name) (a holder bindings e)
      (b holder bindings e)) → Agrees excused (frame.beginResolving name) x y) :
    Agrees excused frame (resolvedOr holder name x) (resolvedOr holder name y) := by
  unfold resolvedOr
  cases holder.resolved? name with
  | some t => exact agrees_pure _ _ t
  | none =>
    apply agrees_whileResolving
    intro hnew
    exact hresolution (h.bodies hsuffix (.resolving hname hnew))

theorem agrees_openDefinition {n : String} {d : Definition}
    (hlookup : scope.lookup n = some (d, holder)) :
    Agrees excused frame (openDefinition limit a holder d) (openDefinition higher b holder d) := by
  have hsuffix := (Scope.of_lookup hlookup).1
  have hname := Scope.name_mem_titles hlookup
  cases d with
  | builtin f => exact agrees_judged (Builtin.judged_apply f [])
  | declared d =>
    cases d with
    | struct name fields =>
      apply agrees_resolvedOr h hsuffix hname
      intro hbody
      refine (agrees_mapM ?_).bind fun _ => agrees_pure _ _ _
      intro field _
      exact (hbody [] field.2).bind fun _ => agrees_pure _ _ _
    | enum name variants =>
      apply agrees_resolvedOr h hsuffix hname
      intro hbody
      refine (agrees_mapM ?_).bind fun _ => agrees_pure _ _ _
      intro (variant, payload) _
      cases payload with
      | none => exact agrees_pure _ _ _
      | some e => exact (hbody [] e).bind fun _ => agrees_pure _ _ _
    | «alias» name value =>
      apply agrees_resolvedOr h hsuffix hname
      intro hbody
      exact hbody [] value
    | function name params body =>
      exact agrees_callFunction h hsuffix name params body []

theorem agrees_nameType (bindings : Bindings) (n : String) :
    Agrees excused frame (nameType limit a scope bindings n)
      (nameType higher b scope bindings n) := by
  unfold nameType
  cases bindings.get? n with
  | some t => exact agrees_pure _ _ t
  | none =>
    cases hlookup : scope.lookup n with
    | none =>
      simp only [Scope.resolve, hlookup]
      exact agrees_throw trivial
    | some found =>
      simp only [Scope.resolve, hlookup]
      exact agrees_openDefinition h hlookup

theorem agrees_variantsOf (owner path : String) :
    Agrees excused frame (variantsOf limit a scope owner path)
      (variantsOf higher b scope owner path) := by
  unfold variantsOf
  split
  · rename_i hlookup
    apply (agrees_openDefinition h hlookup).bind
    intro t
    split
    · exact agrees_pure _ _ _
    · exact agrees_throw trivial
  · exact agrees_throw trivial

theorem agrees_pathType (owner member : String) :
    Agrees excused frame (pathType limit a scope owner member)
      (pathType higher b scope owner member) := by
  unfold pathType
  dsimp only
  split
  · rename_i hlookup
    exact agrees_openDefinition h hlookup
  · apply (agrees_variantsOf h owner _).bind
    intro variants
    split
    · exact agrees_pure _ _ _
    · exact agrees_throw trivial

theorem agrees_callType (function : String) (args : List Ty) :
    Agrees excused frame (callType limit a scope function args)
      (callType higher b scope function args) := by
  unfold callType
  split
  · rename_i name params body holder hlookup
    exact agrees_callFunction h (Scope.of_lookup hlookup).1 name params body args
  · exact agrees_judged (Builtin.judged_apply _ args)
  · rename_i hlookup
    exact (agrees_openDefinition h hlookup).bind fun _ => agrees_throw trivial
  · split
    · exact agrees_throw trivial
    · rename_i owner member hparts
      apply (agrees_variantsOf h owner function).bind
      intro variants
      split
      · exact agrees_judged (judged_variantCall hparts _ args)
      · exact agrees_throw trivial

end Opening

mutual

theorem agrees_evaluateExpr (h : AgreeInside excused limit higher scope frame a b)
    (bindings : Bindings) : (e : Expr) →
    Agrees excused frame (evaluateExpr limit a scope bindings e)
      (evaluateExpr higher b scope bindings e)
  | .number _ => agrees_pure _ _ _
  | .string _ => agrees_pure _ _ _
  | .range _ => agrees_pure _ _ _
  | .name n => agrees_nameType h bindings n
  | .path owner member => agrees_pathType h owner member
  | .field target n =>
    (agrees_evaluateExpr h bindings target).bind fun t => agrees_judged (judged_fieldType t n)
  | .call function args =>
    (agrees_evaluateAll h bindings args).bind fun types => agrees_callType h function types
  | .record n fields => by
    apply (agrees_nameType h [] n).bind
    intro t
    split
    · exact (agrees_refineFields h bindings n _ _ fields).bind fun _ => agrees_pure _ _ _
    · exact agrees_throw trivial
  | .binary op left right =>
    (agrees_evaluateExpr h bindings left).bind fun s =>
      (agrees_evaluateExpr h bindings right).bind fun t => agrees_judged (judged_binaryType op s t)
  | .negate operand =>
    (agrees_evaluateExpr h bindings operand).bind fun _ =>
      agrees_judged (Builtin.judged_unaryArithmetic ..)
  | .select scrutinee arms => by
    apply (agrees_evaluateExpr h bindings scrutinee).bind
    intro t
    split
    · exact agrees_pure _ _ _
    · exact agrees_evaluateArms h bindings t arms

theorem agrees_evaluateAll (h : AgreeInside excused limit higher scope frame a b)
    (bindings : Bindings) : (exprs : List Expr) →
    Agrees excused frame (evaluateAll limit a scope bindings exprs)
      (evaluateAll higher b scope bindings exprs)
  | [] => agrees_pure _ _ _
  | e :: exprs =>
    (agrees_evaluateExpr h bindings e).bind fun _ =>
      (agrees_evaluateAll h bindings exprs).bind fun _ => agrees_pure _ _ _

theorem agrees_refineFields (h : AgreeInside excused limit higher scope frame a b)
    (bindings : Bindings) (record : String) (declared : Ty)
    (slots : List (String × Ty)) : (fields : List (String × Expr)) →
    Agrees excused frame (refineFields limit a scope bindings record declared slots fields)
      (refineFields higher b scope bindings record declared slots fields)
  | [] => agrees_pure _ _ _
  | (field, e) :: fields => by
    apply (agrees_evaluateExpr h bindings e).bind
    intro value
    split
    · exact agrees_throw trivial
    · exact agrees_unless (fun _ => trivial) fun _ =>
        agrees_refineFields h bindings record declared _ fields

theorem agrees_evaluateArms (h : AgreeInside excused limit higher scope frame a b)
    (bindings : Bindings) (scrutinee : Ty) : (arms : List (MatchArm Expr)) →
    Agrees excused frame (evaluateArms limit a scope bindings scrutinee arms)
      (evaluateArms higher b scope bindings scrutinee arms)
  | [] => agrees_throw trivial
  | ⟨none, binding, body⟩ :: _ => agrees_evaluateExpr h (bindArm binding scrutinee bindings) body
  | ⟨some pattern, binding, body⟩ :: arms => by
    apply (agrees_evaluateExpr h bindings pattern).bind
    intro t
    dsimp only
    split
    · exact agrees_evaluateArms h bindings scrutinee arms
    · exact agrees_evaluateExpr h (bindArm binding _ bindings) body

end

end Step

end Evaluation
end TypedFlow
