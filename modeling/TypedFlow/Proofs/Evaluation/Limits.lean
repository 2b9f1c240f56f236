import TypedFlow.Proofs.Evaluation.References
import TypedFlow.Proofs.Scope.Trails

/-!
# What passing a limit means

Evaluation fails at a limit when a name is resolved again or when too many calls are open. Both can
be told from the trail of definitions that are open at that moment. The frame always shows the calls
and the names of the trail, because every computation leaves the frame as it has found it.
-/
namespace TypedFlow
namespace Evaluation
open Trail (calls resolving Recurs)

/-- A value is as said, and a limit has been passed only if `R` holds. -/
def Limited {α : Type} (R : Prop) (P : α → Prop) : Except EvaluationError α → Prop
  | .ok a => P a
  | .error (.recursionLimit _ _) => R
  | .error _ => True

/-- The computation leaves the frame as it is, and its result is so limited. -/
def Unwinds {α : Type} (R : Prop) (frame : Frame) (x : Evaluation α) (P : α → Prop) : Prop :=
  ∃ result, x.run.run frame = (result, frame) ∧ Limited R P result

section Rules
variable {α β : Type} {R : Prop} {frame : Frame} {P : α → Prop} {Q : β → Prop} {x : Evaluation α}

theorem unwinds_pure {a : α} (h : P a) : Unwinds R frame (pure a) P := ⟨_, rfl, h⟩

theorem unwinds_throw {e : EvaluationError} (h : Limited R P (.error e)) :
    Unwinds R frame (throw e) P := ⟨_, rfl, h⟩

theorem unwinds_lift {result : Except EvaluationError α} (h : Judged result) :
    Unwinds R frame (lift result) fun _ => True := by
  refine ⟨result, rfl, ?_⟩
  cases result with
  | ok a => trivial
  | error e =>
    cases e with
    | recursionLimit => exact h.elim
    | _ => trivial

theorem Unwinds.bind {f : α → Evaluation β} (h : Unwinds R frame x P)
    (hf : ∀ a, P a → Unwinds R frame (f a) Q) : Unwinds R frame (x >>= f) Q := by
  obtain ⟨result, hrun, hlimited⟩ := h
  cases result with
  | ok a =>
    obtain ⟨result, hrest, hlast⟩ := hf a hlimited
    refine ⟨result, ?_, hlast⟩
    rw [run_bind_ok (congrArg Prod.fst hrun), hrun]
    exact hrest
  | error e =>
    refine ⟨.error e, ?_, ?_⟩
    · rw [run_bind_error (congrArg Prod.fst hrun), hrun]
    · cases e <;> exact hlimited

theorem Unwinds.mono {P' : α → Prop} (h : Unwinds R frame x P) (himp : ∀ a, P a → P' a) :
    Unwinds R frame x P' := by
  obtain ⟨result, hrun, hlimited⟩ := h
  refine ⟨result, hrun, ?_⟩
  cases result with
  | ok a => exact himp a hlimited
  | error e => cases e <;> exact hlimited

theorem unwinds_unless {c : Prop} [Decidable c] {e : EvaluationError} {f : Unit → Evaluation α}
    (he : c → Limited R P (.error e)) (h : ¬c → Unwinds R frame (f ()) P) :
    Unwinds R frame (if c then throw e >>= f else f ()) P := by
  split
  · rename_i hc
    exact ⟨.error e, rfl, he hc⟩
  · rename_i hc
    exact h hc

theorem unwinds_between {opening closing : Frame → Frame} (hclosing : closing (opening frame) = frame)
    (h : Unwinds R (opening frame) x P) : Unwinds R frame (between opening closing x) P := by
  obtain ⟨result, hrun, hlimited⟩ := h
  refine ⟨result, ?_, hlimited⟩
  change ((x.run.run (opening frame)).1, closing (x.run.run (opening frame)).2) = _
  rw [hrun, hclosing]

theorem unwinds_withinCall {limit : Nat} {function : String} (hR : limit ≤ frame.depth → R)
    (h : Unwinds R frame.enterCall x P) : Unwinds R frame (withinCall limit function x) P :=
  unwinds_unless (f := fun _ => between .enterCall .leaveCall x) hR fun _ => unwinds_between rfl h

theorem unwinds_whileResolving {name : String} (hR : name ∈ frame.resolving → R)
    (h : Unwinds R (frame.beginResolving name) x P) :
    Unwinds R frame (whileResolving name x) P :=
  unwinds_unless (f := fun _ => between (.beginResolving name) .endResolving x)
    (fun hmem => hR (List.contains_iff_mem.1 hmem)) fun _ => unwinds_between rfl h

theorem unwinds_mapM {f : α → Evaluation β} {items : List α}
    (h : ∀ a ∈ items, Unwinds R frame (f a) fun _ => True) :
    Unwinds R frame (items.mapM f) fun _ => True := by
  induction items with
  | nil => exact unwinds_pure trivial
  | cons a items ih =>
    rw [List.forall_mem_cons] at h
    rw [List.mapM_cons]
    exact h.1.bind fun _ _ => (ih h.2).bind fun _ _ => unwinds_pure trivial

end Rules

section Expressions
variable {limit : Nat} {inBody : Evaluator} {R : Prop} {frame : Frame}

/-- The declaration can be opened, and called if it is a function. -/
def Unfolds (limit : Nat) (inBody : Evaluator) (R : Prop) (frame : Frame) (x : Held) : Prop :=
  (Unwinds R frame (openDefinition limit inBody x.2 (.declared x.1)) fun _ => True) ∧
    ∀ name params body args, x.1 = .function name params body →
      Unwinds R frame (callFunction limit inBody x.2 name params body args) fun _ => True

def UnfoldsAll (limit : Nat) (inBody : Evaluator) (R : Prop) (frame : Frame) (scope : Scope)
    (names : List String) : Prop :=
  ∀ n ∈ names, ∀ x, scope.Refers n x → Unfolds limit inBody R frame x

variable {scope holder : Scope} {names others : List String}

theorem unfoldsAll_append : UnfoldsAll limit inBody R frame scope (names ++ others) ↔
    UnfoldsAll limit inBody R frame scope names ∧ UnfoldsAll limit inBody R frame scope others :=
  List.forall_mem_append

theorem unfoldsAll_cons {n : String} : UnfoldsAll limit inBody R frame scope (n :: names) ↔
    (∀ x, scope.Refers n x → Unfolds limit inBody R frame x) ∧
      UnfoldsAll limit inBody R frame scope names :=
  List.forall_mem_cons

section Opening
variable {n : String} (h : ∀ x, scope.Refers n x → Unfolds limit inBody R frame x)
include h

theorem unwinds_definition {d : Definition} (hl : scope.lookup n = some (d, holder)) :
    Unwinds R frame (openDefinition limit inBody holder d) fun _ => True := by
  cases d with
  | builtin f => exact unwinds_lift (Builtin.judged_apply f [])
  | declared d => exact (h (d, holder) (.inl hl)).1

theorem unwinds_resolved :
    Unwinds R frame (do
      let (d, holder) ← lift (scope.resolve n)
      openDefinition limit inBody holder d) fun _ => True := by
  cases hl : scope.lookup n with
  | none =>
    simp only [Scope.resolve, hl]
    exact ⟨_, rfl, trivial⟩
  | some found =>
    simp only [Scope.resolve, hl]
    exact unwinds_definition h hl

theorem unwinds_variantsOf {owner member : String} (hpath : n = pathName owner member)
    (hnone : scope.lookup n = none) (path : String) :
    Unwinds R frame (variantsOf limit inBody scope owner path) fun _ => True := by
  unfold variantsOf
  split
  · rename_i enum variants holder hl
    have hopened := (h (.enum enum variants, holder) (.inr ⟨hnone, owner, member, hpath, hl⟩)).1
    refine hopened.bind fun t _ => ?_
    split
    · exact unwinds_pure trivial
    · exact unwinds_throw trivial
  · exact unwinds_throw trivial

theorem unwinds_callType (args : List Ty) :
    Unwinds R frame (callType limit inBody scope n args) fun _ => True := by
  unfold callType
  split
  · rename_i name params body holder hl
    exact (h (_, holder) (.inl hl)).2 name params body args rfl
  · exact unwinds_lift (Builtin.judged_apply _ args)
  · rename_i hl
    exact (unwinds_definition h hl).bind fun _ _ => unwinds_throw trivial
  · rename_i hnone
    split
    · exact unwinds_throw trivial
    · rename_i hparts
      refine (unwinds_variantsOf h (Scope.eq_pathName hparts) hnone n).bind fun variants _ => ?_
      split
      · exact unwinds_lift (judged_variantCall hparts ..)
      · exact unwinds_throw trivial

end Opening

theorem unwinds_pathType {owner member : String}
    (h : ∀ x, scope.Refers (pathName owner member) x → Unfolds limit inBody R frame x) :
    Unwinds R frame (pathType limit inBody scope owner member) fun _ => True := by
  unfold pathType
  dsimp only
  split
  · rename_i hl
    exact unwinds_definition h hl
  · rename_i hnone
    refine (unwinds_variantsOf h rfl hnone _).bind fun variants _ => ?_
    split
    · exact unwinds_pure trivial
    · exact unwinds_throw trivial

theorem unwinds_nameType {n : String} {bindings : Bindings}
    (h : bindings.get? n = none → ∀ x, scope.Refers n x → Unfolds limit inBody R frame x) :
    Unwinds R frame (nameType limit inBody scope bindings n) fun _ => True := by
  unfold nameType
  split
  · exact unwinds_pure trivial
  · rename_i hnone
    exact unwinds_resolved (h hnone)

mutual

theorem unwinds_evaluateExpr {bound : List String} {bindings : Bindings} (hb : Binds bindings bound) :
    (e : Expr) → UnfoldsAll limit inBody R frame scope (e.references bound) →
    Unwinds R frame (evaluateExpr limit inBody scope bindings e) fun _ => True
  | .number _, _ => unwinds_pure trivial
  | .string _, _ => unwinds_pure trivial
  | .range _, _ => unwinds_pure trivial
  | .name n, h => unwinds_nameType fun hnone => by
    have hn : n ∉ bound := fun hmem => by simpa [hnone] using hb n hmem
    exact h n (by simp [Expr.references, hn])
  | .path owner member, h => unwinds_pathType (h _ (List.mem_singleton_self _))
  | .field target n, h =>
    (unwinds_evaluateExpr hb target h).bind fun t _ => unwinds_lift (judged_fieldType t n)
  | .call function args, h => by
    rw [Expr.references, unfoldsAll_cons] at h
    exact (unwinds_evaluateAll hb args h.2).bind fun types _ => unwinds_callType h.1 types
  | .record n fields, h => by
    rw [Expr.references, unfoldsAll_cons] at h
    refine (unwinds_nameType fun _ => h.1).bind fun t _ => ?_
    split
    · exact (unwinds_refineFields hb n _ _ fields h.2).bind fun _ _ => unwinds_pure trivial
    · exact unwinds_throw trivial
  | .binary op left right, h => by
    rw [Expr.references, unfoldsAll_append] at h
    exact (unwinds_evaluateExpr hb left h.1).bind fun a _ =>
      (unwinds_evaluateExpr hb right h.2).bind fun b _ => unwinds_lift (judged_binaryType op a b)
  | .negate operand, h =>
    (unwinds_evaluateExpr hb operand h).bind fun t _ =>
      unwinds_lift (Builtin.judged_unaryArithmetic ..)
  | .select scrutinee arms, h => by
    rw [Expr.references, unfoldsAll_append] at h
    refine (unwinds_evaluateExpr hb scrutinee h.1).bind fun t _ => ?_
    split
    · exact unwinds_pure trivial
    · exact unwinds_evaluateArms hb t arms h.2

theorem unwinds_evaluateAll {bound : List String} {bindings : Bindings} (hb : Binds bindings bound) :
    (exprs : List Expr) →
    UnfoldsAll limit inBody R frame scope (Expr.referencesAll bound exprs) →
    Unwinds R frame (evaluateAll limit inBody scope bindings exprs) fun _ => True
  | [], _ => unwinds_pure trivial
  | e :: exprs, h => by
    rw [Expr.referencesAll, unfoldsAll_append] at h
    exact (unwinds_evaluateExpr hb e h.1).bind fun _ _ =>
      (unwinds_evaluateAll hb exprs h.2).bind fun _ _ => unwinds_pure trivial

theorem unwinds_refineFields {bound : List String} {bindings : Bindings} (hb : Binds bindings bound)
    (record : String) (declared : Ty) (slots : List (String × Ty)) :
    (fields : List (String × Expr)) →
    UnfoldsAll limit inBody R frame scope (Expr.referencesFields bound fields) →
    Unwinds R frame (refineFields limit inBody scope bindings record declared slots fields)
      fun _ => True
  | [], _ => unwinds_pure trivial
  | (field, e) :: fields, h => by
    rw [Expr.referencesFields, unfoldsAll_append] at h
    refine (unwinds_evaluateExpr hb e h.1).bind fun value _ => ?_
    split
    · exact unwinds_throw trivial
    · exact unwinds_unless (fun _ => trivial) fun _ =>
        unwinds_refineFields hb record declared _ fields h.2

theorem unwinds_evaluateArms {bound : List String} {bindings : Bindings} (hb : Binds bindings bound)
    (scrutinee : Ty) : (arms : List (MatchArm Expr)) →
    UnfoldsAll limit inBody R frame scope (Expr.referencesArms bound arms) →
    Unwinds R frame (evaluateArms limit inBody scope bindings scrutinee arms) fun _ => True
  | [], _ => unwinds_throw trivial
  | ⟨none, binding, body⟩ :: arms, h => by
    rw [Expr.referencesArms, unfoldsAll_append] at h
    exact unwinds_evaluateExpr (hb.bindArm binding scrutinee) body h.1
  | ⟨some pattern, binding, body⟩ :: arms, h => by
    rw [Expr.referencesArms, unfoldsAll_append, unfoldsAll_append] at h
    refine (unwinds_evaluateExpr hb pattern h.1.1).bind fun t _ => ?_
    dsimp only
    split
    · exact unwinds_evaluateArms hb scrutinee arms h.2
    · exact unwinds_evaluateExpr (hb.bindArm binding _) body h.1.2

end

end Expressions

section Trails
variable {limit length : Nat} {start : Held → Prop} {R : Prop} {inBody : Evaluator} {x : Held}
  {trail : List Held}

/-- What a frame shows while the definitions of a trail are open. -/
def frameOf (trail : List Held) : Frame := ⟨calls trail, resolving trail⟩

theorem frameOf_function (h : x.1.isFunction = true) :
    frameOf (x :: trail) = (frameOf trail).enterCall := by
  rw [frameOf, Trail.calls_function h, Trail.resolving_function h]
  rfl

theorem frameOf_other (h : x.1.isFunction = false) :
    frameOf (x :: trail) = (frameOf trail).beginResolving x.1.name := by
  rw [frameOf, Trail.calls_other h, Trail.resolving_other h]
  rfl

/-- In the body of the last definition of a trail so long, the evaluator passes a limit only if
`R` holds. -/
def Follows (R : Prop) (start : Held → Prop) (inBody : Evaluator) (length : Nat) : Prop :=
  ∀ ⦃x : Held⦄ ⦃trail : List Held⦄, Trail start (x :: trail) → trail.length + 1 = length →
    ∀ ⦃bound : List String⦄ ⦃bindings : Bindings⦄ ⦃e : Expr⦄, e.references bound ⊆ x.1.references →
      Binds bindings bound →
      Unwinds R (frameOf (x :: trail)) (inBody x.2 bindings e) fun _ => True

theorem Follows.closed (h : Follows R start inBody (trail.length + 1))
    (htrail : Trail start (x :: trail)) {e : Expr} (he : e.references [] ⊆ x.1.references) :
    Unwinds R (frameOf (x :: trail)) (inBody x.2 [] e) fun _ => True :=
  h htrail rfl he (binds_nil [])

theorem unwinds_bindArguments {holder : Scope} {frame : Frame} (function : String)
    {params : List (String × Expr)} {args : List Ty} (hlen : args.length = params.length)
    (hp : ∀ p ∈ params, Unwinds R frame (inBody holder [] p.2) fun _ => True) {bound : List String}
    {locals : Bindings} (hb : Binds locals bound) :
    Unwinds R frame (bindArguments inBody holder function params args locals) fun all =>
      Binds all bound ∧ Binds all (params.map (·.1)) := by
  induction params generalizing args locals bound with
  | nil => exact unwinds_pure ⟨hb, binds_nil locals⟩
  | cons param params ih =>
    cases args with
    | nil => cases hlen
    | cons arg args =>
      rw [List.forall_mem_cons] at hp
      refine hp.1.bind fun declared _ => unwinds_unless (fun _ => trivial) fun _ => ?_
      refine (ih (Nat.succ.inj hlen) hp.2 (hb.insert param.1 _)).mono fun all hall => ?_
      have hall' := List.forall_mem_cons.1 hall.1
      exact ⟨hall'.2, List.forall_mem_cons.2 ⟨hall'.1, hall.2⟩⟩

section Step
variable (hR : ∀ trail, Trail start trail → Recurs limit trail → R)
include hR

theorem unwinds_resolvedOr {d : Declaration} {holder : Scope} (hd : d.isFunction = false)
    (htrail : holder.resolved? d.name = none → Trail start ((d, holder) :: trail))
    {resolution : Evaluation Ty}
    (hresolution : Trail start ((d, holder) :: trail) →
      Unwinds R (frameOf ((d, holder) :: trail)) resolution fun _ => True) :
    Unwinds R (frameOf trail) (resolvedOr holder d.name resolution) fun _ => True := by
  unfold resolvedOr
  split
  · exact unwinds_pure trivial
  · rename_i hnone
    have hopened := htrail hnone
    refine unwinds_whileResolving (fun hmem => hR _ hopened (.inl ?_))
      (frameOf_other (x := (d, holder)) hd ▸ hresolution hopened)
    rw [Trail.resolving_other hd, List.nodup_cons]
    exact fun hnodup => hnodup.1 hmem

theorem unwinds_callFunction (h : Follows R start inBody (trail.length + 1)) {name : String}
    {params : List (String × Expr)} {body : Expr} {holder : Scope}
    (htrail : Trail start ((.function name params body, holder) :: trail))
    (args : List Ty) :
    Unwinds R (frameOf trail) (callFunction limit inBody holder name params body args)
      fun _ => True := by
  unfold callFunction
  refine unwinds_unless (fun _ => trivial) fun hlen => ?_
  refine unwinds_withinCall (fun hdepth => hR _ htrail (.inr ?_)) ?_
  · rw [Trail.calls_function rfl]
    exact Nat.lt_succ_of_le hdepth
  · rw [← frameOf_function (x := (.function name params body, holder)) rfl]
    have hparams : ∀ p ∈ params,
        p.2.references [] ⊆ (Declaration.function name params body).references := fun p hp =>
      List.subset_append_of_subset_left _ fun n hn => List.mem_flatMap.2 ⟨p, hp, hn⟩
    refine (unwinds_bindArguments name (not_not.1 hlen)
      (fun p hp => h.closed htrail (hparams p hp)) (binds_nil [])).bind fun locals hlocals => ?_
    exact h htrail rfl (List.subset_append_right _ _) hlocals.2

/-- Opening a definition makes the trail longer by it, unless its type is kept. -/
theorem Follows.unfolds (trail : List Held) (h : Follows R start inBody (trail.length + 1))
    (hx : (x.1.isFunction = false → x.2.resolved? x.1.name = none) → Trail start (x :: trail)) :
    Unfolds limit inBody R (frameOf trail) x := by
  obtain ⟨d, holder⟩ := x
  cases d with
  | function name params body =>
    have htrail := hx fun hfalse => by cases hfalse
    refine ⟨unwinds_callFunction hR h htrail [], fun _ _ _ args heq => ?_⟩
    cases heq
    exact unwinds_callFunction hR h htrail args
  | struct name fields =>
    refine ⟨?_, fun _ _ _ _ heq => by cases heq⟩
    refine unwinds_resolvedOr hR rfl (fun hnone => hx fun _ => hnone) fun htrail => ?_
    refine (unwinds_mapM fun f hf => ?_).bind fun _ _ => unwinds_pure trivial
    have hsubset : f.2.references [] ⊆ (Declaration.struct name fields).references :=
      fun n hn => List.mem_flatMap.2 ⟨f, hf, hn⟩
    exact (h.closed htrail hsubset).bind fun _ _ => unwinds_pure trivial
  | enum name variants =>
    refine ⟨?_, fun _ _ _ _ heq => by cases heq⟩
    refine unwinds_resolvedOr hR rfl (fun hnone => hx fun _ => hnone) fun htrail => ?_
    refine (unwinds_mapM fun v hv => ?_).bind fun _ _ => unwinds_pure trivial
    obtain ⟨variant, payload⟩ := v
    cases payload with
    | none => exact unwinds_pure trivial
    | some e =>
      have hsubset : e.references [] ⊆ (Declaration.enum name variants).references :=
        fun n hn => List.mem_flatMap.2 ⟨_, hv, hn⟩
      exact (h.closed htrail hsubset).bind fun _ _ => unwinds_pure trivial
  | «alias» name value =>
    refine ⟨?_, fun _ _ _ _ heq => by cases heq⟩
    exact unwinds_resolvedOr hR rfl (fun hnone => hx fun _ => hnone) fun htrail =>
      h.closed htrail (List.Subset.refl _)

end Step

theorem Follows.evaluateExpr (hR : ∀ trail, Trail start trail → Recurs limit trail → R)
    (h : Follows R start inBody (length + 1)) :
    Follows R start (evaluateExpr limit inBody) length := by
  rintro x trail htrail rfl bound bindings e hsubset hb
  refine unwinds_evaluateExpr hb e fun n hn y hy => ?_
  exact Follows.unfolds hR (x :: trail) h fun hkept =>
    htrail.next ⟨⟨n, hsubset hn, hy⟩, hkept⟩

/-- As many levels as a trail can have definitions, without passing a limit, are enough: the last of
them is never reached otherwise. -/
theorem exists_follows {scope : Scope} (hs : scope.Complete) (hstart : ∀ x, start x → scope.Holds x)
    (hR : ∀ trail, Trail start trail → Recurs limit trail → R) (levels : Nat) :
    ∃ inBody, evaluateAt limit levels = Evaluation.evaluateExpr limit inBody ∧
      ∀ length, limit + scope.size < length + levels → Follows R start inBody length := by
  induction levels with
  | zero =>
    refine ⟨fun _ _ _ => throw (.recursionLimit "" limit), rfl, ?_⟩
    -- So long a trail has passed a limit before.
    rintro length hlong x trail htrail rfl bound bindings e - -
    exact unwinds_throw (hR _ htrail (Trail.recurs_of_length (htrail.holds hs hstart) hlong))
  | succ levels ih =>
    obtain ⟨inBody, heq, hfollows⟩ := ih
    refine ⟨evaluateAt limit levels, rfl, fun length hlong => heq ▸ ?_⟩
    exact (hfollows (length + 1) (by omega)).evaluateExpr hR

end Trails

end Evaluation

/-- Evaluation passes a limit only where definitions, opened one from another, resolve a name again
or make more calls than the limit. -/
theorem recurs_of_evaluate {scope : Scope} (hs : scope.Complete) {limit : Nat} {bound : List String}
    {bindings : Bindings} (hb : Evaluation.Binds bindings bound) {e : Expr} {function : String}
    {depth : Nat}
    (h : evaluate scope limit bindings e = .error (.recursionLimit function depth)) :
    ∃ trail, Trail (scope.Opens (e.references bound)) trail ∧ Trail.Recurs limit trail := by
  let R := ∃ trail, Trail (scope.Opens (e.references bound)) trail ∧ Trail.Recurs limit trail
  have hR : ∀ trail, Trail (scope.Opens (e.references bound)) trail → Trail.Recurs limit trail → R :=
    fun trail htrail hrecurs => ⟨trail, htrail, hrecurs⟩
  have hstart : ∀ x, scope.Opens (e.references bound) x → scope.Holds x :=
    fun x hx => by
      obtain ⟨⟨n, -, hrefers⟩, -⟩ := hx
      exact hs.holds (List.suffix_refl scope) hrefers
  obtain ⟨inBody, heq, hfollows⟩ := Evaluation.exists_follows hs hstart hR (limit + scope.size)
  have hunwinds : Evaluation.Unwinds R .empty (Evaluation.evaluateExpr limit inBody scope bindings e)
      fun _ => True := by
    refine Evaluation.unwinds_evaluateExpr hb e fun n hn x hx => ?_
    exact Evaluation.Follows.unfolds hR [] (hfollows 1 (by omega)) fun hkept =>
      .first ⟨⟨n, hn, hx⟩, hkept⟩
  obtain ⟨result, hrun, hlimited⟩ := hunwinds
  unfold evaluate at h
  rw [heq, hrun] at h
  cases h
  exact hlimited

end TypedFlow
