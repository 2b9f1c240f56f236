import TypedFlow.Proofs.Effects
import TypedFlow.Proofs.Evaluation.Judgements
import TypedFlow.Proofs.Scope.Lookup

/-!
# Evaluation finds what is referred to

The check of references goes through an expression once, in the scope where it stands. Evaluation
also goes through the bodies of the definitions that it opens, each in the scope of its holder. In a
complete scope those bodies have been checked themselves, so that an expression without undefined
references never comes to a name that means nothing.
-/
namespace TypedFlow

/-- The result is not that something is undefined, and a value is as said. -/
def Defined {α : Type} (P : α → Prop) : Except EvaluationError α → Prop
  | .ok a => P a
  | .error e => ∀ name, e ≠ .undefinedReference name

section Defined
variable {α : Type} {P : α → Prop}

theorem Defined.mono {P' : α → Prop} {result : Except EvaluationError α} (h : Defined P result)
    (himp : ∀ a, P a → P' a) : Defined P' result := by
  cases result with
  | ok a => exact himp a h
  | error e => exact h

theorem Judged.defined {result : Except EvaluationError α} (h : Judged result) :
    Defined (fun _ => True) result := by
  cases result with
  | ok a => trivial
  | error e =>
    rintro name rfl
    exact h

end Defined

namespace Evaluation

/-- Whatever is open in the frame, nothing is undefined for the computation, and a value is as
said. -/
def Resolves {α : Type} (x : Evaluation α) (P : α → Prop) : Prop :=
  ∀ frame, Defined P (x.run.run frame).1

section Rules
variable {α β : Type} {P : α → Prop} {Q : β → Prop} {x : Evaluation α}

theorem resolves_pure {a : α} (h : P a) : Resolves (pure a) P := fun _ => h

theorem resolves_throw {e : EvaluationError} (h : ∀ name, e ≠ .undefinedReference name) :
    Resolves (throw e : Evaluation α) P := fun _ => h

theorem resolves_typeMismatch (attempt : Attempt) (required : Requirement) (found : Ty) :
    Resolves (throw (.typeMismatch attempt required found) : Evaluation α) P :=
  resolves_throw fun _ h => by cases h

theorem resolves_lift {result : Except EvaluationError α} (h : Defined P result) :
    Resolves (lift result) P := fun _ => h

theorem Resolves.bind {f : α → Evaluation β} (h : Resolves x P) (hf : ∀ a, P a → Resolves (f a) Q) :
    Resolves (x >>= f) Q := by
  intro frame
  have hx := h frame
  cases hrun : (x.run.run frame).1 with
  | ok a =>
    rw [hrun] at hx
    rw [run_bind_ok hrun]
    exact hf a hx _
  | error e =>
    rw [hrun] at hx
    rw [run_bind_error hrun]
    exact hx

theorem Resolves.mono {P' : α → Prop} (h : Resolves x P) (himp : ∀ a, P a → P' a) :
    Resolves x P' := fun frame => (h frame).mono himp

theorem resolves_unless {c : Prop} [Decidable c] {e : EvaluationError}
    (he : ∀ name, e ≠ .undefinedReference name) {rest : Unit → Evaluation α}
    (h : ¬c → Resolves (rest ()) P) :
    Resolves (if c then throw e >>= rest else rest ()) P := by
  split
  · exact fun _ => he
  · rename_i hc
    exact h hc

theorem resolves_between (opening closing : Frame → Frame) (h : Resolves x P) :
    Resolves (between opening closing x) P := fun frame => h (opening frame)

theorem resolves_get : Resolves (get : Evaluation Frame) fun _ => True := fun _ => trivial

theorem resolves_withinCall (limit : Nat) (function : String) (h : Resolves x P) :
    Resolves (withinCall limit function x) P :=
  resolves_get.bind fun _ _ => resolves_unless (fun _ h => by cases h) fun _ =>
    resolves_between _ _ h

theorem resolves_whileResolving (name : String) (h : Resolves x P) :
    Resolves (whileResolving name x) P :=
  resolves_get.bind fun _ _ => resolves_unless (fun _ h => by cases h) fun _ =>
    resolves_between _ _ h

theorem resolves_mapM {f : α → Evaluation β} {R : α → β → Prop} {items : List α}
    (h : ∀ a ∈ items, Resolves (f a) (R a)) :
    Resolves (items.mapM f) (List.Forall₂ R items) := by
  induction items with
  | nil => exact resolves_pure .nil
  | cons a items ih =>
    rw [List.forall_mem_cons] at h
    rw [List.mapM_cons]
    exact h.1.bind fun _ hb => (ih h.2).bind fun _ hbs => resolves_pure (.cons hb hbs)

end Rules

/-- All of some names are bound. -/
def Binds (bindings : Bindings) (names : List String) : Prop :=
  ∀ n ∈ names, (bindings.get? n).isSome = true

theorem binds_nil (bindings : Bindings) : Binds bindings [] := fun _ h => absurd h List.not_mem_nil

theorem Binds.insert {bindings : Bindings} {names : List String} (h : Binds bindings names)
    (name : String) (t : Ty) : Binds (Entries.insert name t bindings) (name :: names) := by
  intro n hn
  rw [Entries.get?_insert]
  by_cases heq : name = n
  · simp [heq]
  · rw [if_neg heq]
    exact h n ((List.mem_cons.1 hn).resolve_left (Ne.symm heq))

theorem Binds.bindArm {bindings : Bindings} {names : List String} (h : Binds bindings names)
    (binding : Option String) (t : Ty) :
    Binds (bindArm binding t bindings) (binding.toList ++ names) := by
  cases binding with
  | none => exact h
  | some name => exact h.insert name t

/-- The evaluator comes upon nothing undefined in complete scopes, where the check of references
comes upon nothing. -/
def FindsAll (evaluator : Evaluator) : Prop :=
  ∀ ⦃scope : Scope⦄ ⦃bound : List String⦄ ⦃bindings : Bindings⦄ ⦃e : Expr⦄, scope.Complete →
    e.WellFormed → scope.firstUndefined bound e = none → Binds bindings bound →
    Resolves (evaluator scope bindings e) fun _ => True

section Opening
variable {limit : Nat} {inBody : Evaluator} (hbody : FindsAll inBody) {holder scope : Scope}
include hbody

/-- A type that is written where nothing is bound. -/
theorem FindsAll.closed {e : Expr} (hs : scope.Complete) (he : e.WellFormed)
    (hu : scope.firstUndefined [] e = none) :
    Resolves (inBody scope [] e) fun _ => True :=
  hbody hs he hu (binds_nil [])

/-- Arguments are bound to all parameters. -/
theorem resolves_bindArguments (hs : holder.Complete) (function : String)
    {params : List (String × Expr)} {args : List Ty} (hlen : args.length = params.length)
    (hp : ∀ p ∈ params, p.2.WellFormed ∧ holder.firstUndefined [] p.2 = none)
    (locals : Bindings) :
    Resolves (bindArguments inBody holder function params args locals) fun all =>
      ∀ n, n ∈ params.map (·.1) ∨ (locals.get? n).isSome = true →
        (all.get? n).isSome = true := by
  induction params generalizing args locals with
  | nil => exact resolves_pure fun n h => h.resolve_left List.not_mem_nil
  | cons param params ih =>
    cases args with
    | nil => cases hlen
    | cons arg args =>
      rw [List.forall_mem_cons] at hp
      refine (hbody.closed hs hp.1.1 hp.1.2).bind fun declared _ => ?_
      refine resolves_unless (fun _ h => by cases h) fun _ => ?_
      refine (ih (Nat.succ.inj hlen) hp.2 _).mono fun all hall n hn => hall n ?_
      rw [Entries.get?_insert]
      rw [List.map_cons, List.mem_cons] at hn
      by_cases heq : param.1 = n
      · simp [heq]
      · simpa [heq, Ne.symm heq] using hn

theorem resolves_callFunction (hs : holder.Complete) {function name : String}
    {params : List (String × Expr)} {body : Expr}
    (hd : (Definition.declared (.function function params body)).Complete holder name)
    (args : List Ty) :
    Resolves (callFunction limit inBody holder function params body args) fun _ => True := by
  obtain ⟨-, ⟨-, hparams, hwell⟩, hu⟩ := hd
  rw [ScopeBuilder.firstUndefined, Option.or_eq_none_iff, List.findSome?_eq_none_iff] at hu
  refine resolves_unless (fun _ h => by cases h) fun hlen => resolves_withinCall _ _ ?_
  refine (resolves_bindArguments hbody hs _ (not_not.1 hlen)
    (fun p hp => ⟨(hparams p hp).2, hu.1 p hp⟩) []).bind fun locals hlocals => ?_
  exact hbody hs hwell hu.2 fun n hn => hlocals n (.inl hn)

omit hbody in
theorem resolves_resolvedOr {name : String} {resolution : Evaluation Ty} {P : Ty → Prop}
    (hcached : ∀ t, holder.resolved? name = some t → P t) (h : Resolves resolution P) :
    Resolves (resolvedOr holder name resolution) P := by
  unfold resolvedOr
  split
  · rename_i t ht
    exact resolves_pure (hcached t ht)
  · exact resolves_whileResolving name h

/-- The type of a complete definition, found or cached, can be its type. -/
theorem resolves_openDefinition (hs : holder.Complete) {name : String} {d : Definition}
    (hd : d.Complete holder name) (hcached : ∀ t, holder.resolved? name = some t → d.Admits t) :
    Resolves (openDefinition limit inBody holder d) d.Admits := by
  cases d with
  | builtin f => exact resolves_lift ((Builtin.judged_apply f []).defined.mono fun _ _ => trivial)
  | declared d =>
    obtain ⟨rfl, hwell, hu⟩ := id hd
    cases d with
    | struct name fields =>
      rw [ScopeBuilder.firstUndefined, List.findSome?_eq_none_iff] at hu
      refine resolves_resolvedOr hcached ?_
      refine (resolves_mapM (R := fun _ _ => True) fun f hf => ?_).bind fun _ _ =>
        resolves_pure trivial
      exact (hbody.closed hs (hwell.2 f hf).2 (hu f hf)).bind fun _ _ => resolves_pure trivial
    | enum name variants =>
      rw [ScopeBuilder.firstUndefined, List.findSome?_eq_none_iff] at hu
      refine resolves_resolvedOr hcached ?_
      refine (resolves_mapM (R := fun v w => v.1 = w.1) fun v hv => ?_).bind fun found hfound =>
        resolves_pure (.inr ⟨_, rfl, fun n hn => ?_⟩)
      · obtain ⟨variant, payload⟩ := v
        cases payload with
        | none => exact resolves_pure rfl
        | some e =>
          exact (hbody.closed hs ((hwell.2 _ hv).2 e rfl) (hu _ hv)).bind fun _ _ =>
            resolves_pure rfl
      · rw [Entries.isSome_get?_ofList]
        exact Entries.names_eq_of_forall₂ hfound ▸ hn
    | function name params body =>
      exact (resolves_callFunction hbody hs hd []).mono fun _ _ => trivial
    | «alias» name value =>
      refine (resolves_resolvedOr hcached (hbody.closed hs hwell.2 hu)).mono fun _ _ => trivial

/-- A name that is not bound has a type that its definition can have. -/
theorem resolves_nameType_of_lookup (hs : scope.Complete) {name : String} {d : Definition}
    (hl : scope.lookup name = some (d, holder)) {bindings : Bindings}
    (hb : bindings.get? name = none) :
    Resolves (nameType limit inBody scope bindings name) d.Admits := by
  obtain ⟨hholder, hcomplete, hcached⟩ := hs.lookup hl
  simp only [nameType, hb, Scope.resolve, hl]
  have hresolve : Resolves (lift (.ok (d, holder))) (· = (d, holder)) := resolves_lift rfl
  exact hresolve.bind fun _ hfound =>
    hfound ▸ resolves_openDefinition hbody hholder hcomplete hcached

theorem resolves_nameType (hs : scope.Complete) {bound : List String} {bindings : Bindings}
    {name : String} (hn : IsName name) (hd : name ∈ bound ∨ scope.isDefined name = true)
    (hb : Binds bindings bound) :
    Resolves (nameType limit inBody scope bindings name) fun _ => True := by
  cases hget : bindings.get? name with
  | some t =>
    simp only [nameType, hget]
    exact resolves_pure trivial
  | none =>
    have hdefined : scope.isDefined name = true :=
      hd.resolve_left fun hmem => by simpa [hget] using hb name hmem
    obtain ⟨⟨d, holder⟩, hl⟩ := Scope.exists_lookup_of_isWord hdefined hn.isWord
    exact (resolves_nameType_of_lookup hbody hs hl hget).mono fun _ _ => trivial

theorem resolves_variantsOf (hs : scope.Complete) {owner enum : String}
    {variants : List (String × Option Expr)}
    (hl : scope.lookup owner = some (.declared (.enum enum variants), holder)) (path : String) :
    Resolves (variantsOf limit inBody scope owner path) fun found =>
      ∀ v ∈ Entries.names variants, (Entries.get? found v).isSome = true := by
  obtain ⟨hholder, hcomplete, hcached⟩ := hs.lookup hl
  simp only [variantsOf, hl]
  refine (resolves_openDefinition hbody hholder hcomplete hcached).bind fun t ht => ?_
  obtain rfl | ⟨payloads, rfl, hall⟩ := ht
  · exact resolves_typeMismatch _ _ _
  · exact resolves_pure hall

theorem resolves_pathType (hs : scope.Complete) {owner member : String} (ho : IsName owner)
    (hd : scope.isDefined (pathName owner member) = true) :
    Resolves (pathType limit inBody scope owner member) fun _ => True := by
  unfold pathType
  dsimp only
  split
  · rename_i d holder hl
    obtain ⟨hholder, hcomplete, hcached⟩ := hs.lookup hl
    exact (resolves_openDefinition hbody hholder hcomplete hcached).mono fun _ _ => trivial
  · rename_i hnone
    obtain ⟨_, _, enum, variants, holder, hparts, hl, hmem⟩ := Scope.exists_variant hd hnone
    cases (Scope.pathParts?_pathName ho.isWord member).symm.trans hparts
    refine (resolves_variantsOf hbody hs hl _).bind fun found hfound => ?_
    obtain ⟨payload, hpayload⟩ := Option.isSome_iff_exists.1 (hfound member hmem)
    rw [hpayload]
    exact resolves_pure trivial

theorem resolves_callType (hs : scope.Complete) {function : String}
    (hd : scope.isDefined function = true) (args : List Ty) :
    Resolves (callType limit inBody scope function args) fun _ => True := by
  unfold callType
  split
  · rename_i hl
    obtain ⟨hholder, hcomplete, -⟩ := hs.lookup hl
    exact resolves_callFunction hbody hholder (hcomplete.1 ▸ hcomplete) args
  · exact resolves_lift (Builtin.judged_apply _ args).defined
  · rename_i hl
    obtain ⟨hholder, hcomplete, hcached⟩ := hs.lookup hl
    exact (resolves_openDefinition hbody hholder hcomplete hcached).bind fun _ _ =>
      resolves_typeMismatch _ _ _
  · rename_i hnone
    obtain ⟨owner, member, enum, variants, holder, hparts, hl, hmem⟩ :=
      Scope.exists_variant hd hnone
    rw [hparts]
    refine (resolves_variantsOf hbody hs hl _).bind fun found hfound => ?_
    obtain ⟨payload, hpayload⟩ := Option.isSome_iff_exists.1 (hfound member hmem)
    rw [hpayload]
    exact resolves_lift (judged_variantCall hparts ..).defined

end Opening

section Expressions
variable {limit : Nat} {inBody : Evaluator} {scope : Scope}

mutual

theorem resolves_evaluateExpr (hbody : FindsAll inBody) (hs : scope.Complete)
    {bound : List String} {bindings : Bindings} (hb : Binds bindings bound) :
    (e : Expr) → e.WellFormed → scope.Defines (e.references bound) →
    Resolves (evaluateExpr limit inBody scope bindings e) fun _ => True
  | .number _, _, _ => resolves_pure trivial
  | .string _, _, _ => resolves_pure trivial
  | .range _, _, _ => resolves_pure trivial
  | .name n, hwell, hd => by
    refine resolves_nameType hbody hs hwell ?_ hb
    by_cases hn : n ∈ bound
    · exact .inl hn
    · exact .inr (hd n (by simp [Expr.references, hn]))
  | .path owner member, hwell, hd =>
    resolves_pathType hbody hs hwell.1 (hd _ (List.mem_singleton_self _))
  | .field target n, hwell, hd =>
    (resolves_evaluateExpr hbody hs hb target hwell.1 hd).bind fun t _ =>
      resolves_lift (judged_fieldType t n).defined
  | .call function args, hwell, hd => by
    rw [Expr.references, Scope.defines_cons] at hd
    exact (resolves_evaluateAll hbody hs hb args hwell.2 hd.2).bind fun types _ =>
      resolves_callType hbody hs hd.1 types
  | .record n fields, hwell, hd => by
    rw [Expr.references, Scope.defines_cons] at hd
    refine (resolves_nameType hbody hs hwell.1 (.inr hd.1) (binds_nil [])).bind fun t _ => ?_
    split
    · exact (resolves_refineFields hbody hs hb n _ _ fields hwell.2 hd.2).bind fun _ _ =>
        resolves_pure trivial
    · exact resolves_typeMismatch _ _ _
  | .binary op left right, hwell, hd => by
    rw [Expr.references, Scope.defines_append] at hd
    exact (resolves_evaluateExpr hbody hs hb left hwell.1 hd.1).bind fun a _ =>
      (resolves_evaluateExpr hbody hs hb right hwell.2 hd.2).bind fun b _ =>
        resolves_lift (judged_binaryType op a b).defined
  | .negate operand, hwell, hd =>
    (resolves_evaluateExpr hbody hs hb operand hwell hd).bind fun t _ =>
      resolves_lift (Builtin.judged_unaryArithmetic ..).defined
  | .select scrutinee arms, hwell, hd => by
    rw [Expr.references, Scope.defines_append] at hd
    refine (resolves_evaluateExpr hbody hs hb scrutinee hwell.1 hd.1).bind fun t _ => ?_
    split
    · exact resolves_pure trivial
    · exact resolves_evaluateArms hbody hs hb t arms hwell.2.2 hd.2

theorem resolves_evaluateAll (hbody : FindsAll inBody) (hs : scope.Complete)
    {bound : List String} {bindings : Bindings} (hb : Binds bindings bound) :
    (exprs : List Expr) → Expr.WellFormedAll exprs →
    scope.Defines (Expr.referencesAll bound exprs) →
    Resolves (evaluateAll limit inBody scope bindings exprs) fun _ => True
  | [], _, _ => resolves_pure trivial
  | e :: exprs, hwell, hd => by
    rw [Expr.referencesAll, Scope.defines_append] at hd
    exact (resolves_evaluateExpr hbody hs hb e hwell.1 hd.1).bind fun _ _ =>
      (resolves_evaluateAll hbody hs hb exprs hwell.2 hd.2).bind fun _ _ => resolves_pure trivial

theorem resolves_refineFields (hbody : FindsAll inBody) (hs : scope.Complete)
    {bound : List String} {bindings : Bindings} (hb : Binds bindings bound) (record : String)
    (declared : Ty) (slots : List (String × Ty)) : (fields : List (String × Expr)) → Expr.WellFormedFields fields →
    scope.Defines (Expr.referencesFields bound fields) →
    Resolves (refineFields limit inBody scope bindings record declared slots fields) fun _ => True
  | [], _, _ => resolves_pure trivial
  | (field, e) :: fields, hwell, hd => by
    rw [Expr.referencesFields, Scope.defines_append] at hd
    refine (resolves_evaluateExpr hbody hs hb e hwell.2.1 hd.1).bind fun value _ => ?_
    split
    · exact resolves_typeMismatch _ _ _
    · exact resolves_unless (fun _ h => by cases h) fun _ =>
        resolves_refineFields hbody hs hb record declared _ fields hwell.2.2 hd.2

theorem resolves_evaluateArms (hbody : FindsAll inBody) (hs : scope.Complete)
    {bound : List String} {bindings : Bindings} (hb : Binds bindings bound) (scrutinee : Ty) :
    (arms : List (MatchArm Expr)) → Expr.WellFormedArms arms →
    scope.Defines (Expr.referencesArms bound arms) →
    Resolves (evaluateArms limit inBody scope bindings scrutinee arms) fun _ => True
  | [], _, _ => resolves_throw fun _ h => by cases h
  | ⟨none, binding, body⟩ :: arms, hwell, hd => by
    rw [Expr.referencesArms, Scope.defines_append] at hd
    exact resolves_evaluateExpr hbody hs (hb.bindArm binding scrutinee) body hwell.2.1 hd.1
  | ⟨some pattern, binding, body⟩ :: arms, hwell, hd => by
    rw [Expr.referencesArms, Scope.defines_append, Scope.defines_append] at hd
    refine (resolves_evaluateExpr hbody hs hb pattern hwell.1 hd.1.1).bind fun t _ => ?_
    dsimp only
    split
    · exact resolves_evaluateArms hbody hs hb scrutinee arms hwell.2.2.2 hd.2
    · exact resolves_evaluateExpr hbody hs (hb.bindArm binding _) body hwell.2.2.1 hd.1.2

end

end Expressions

theorem findsAll_evaluateExpr (limit : Nat) {inBody : Evaluator} (hbody : FindsAll inBody) :
    FindsAll (evaluateExpr limit inBody) :=
  fun _ _ _ e hs hwell hu hb =>
    resolves_evaluateExpr hbody hs hb e hwell (Scope.firstUndefined_eq_none_iff.1 hu)

/-- However many bodies evaluation may enter, one inside the other, there is one way to go on in
them. -/
theorem exists_inBody (limit levels : Nat) :
    ∃ inBody, FindsAll inBody ∧ evaluateAt limit levels = evaluateExpr limit inBody := by
  induction levels with
  | zero =>
    refine ⟨fun _ _ _ => throw (.recursionLimit "" limit), ?_, rfl⟩
    exact fun _ _ _ _ _ _ _ _ => resolves_throw fun _ h => by cases h
  | succ levels ih =>
    obtain ⟨inBody, hbody, heq⟩ := ih
    exact ⟨evaluateAt limit levels, heq ▸ findsAll_evaluateExpr limit hbody, rfl⟩

end Evaluation

/-- Where the check of references finds nothing, neither does evaluation. -/
theorem defined_evaluate {scope : Scope} (hs : scope.Complete) {e : Expr} (hwell : e.WellFormed)
    {bound : List String} (hu : scope.firstUndefined bound e = none) (limit : Nat)
    {bindings : Bindings} (hb : Evaluation.Binds bindings bound) :
    Defined (fun _ => True) (evaluate scope limit bindings e) := by
  obtain ⟨inBody, hbody, heq⟩ := Evaluation.exists_inBody limit (limit + scope.size)
  unfold evaluate
  rw [heq]
  exact Evaluation.findsAll_evaluateExpr limit hbody hs hwell hu hb .empty

/-- What evaluation finds for a name is a type that its definition can have. -/
theorem defined_evaluate_name {scope holder : Scope} (hs : scope.Complete) {name : String}
    {d : Definition} (hl : scope.lookup name = some (d, holder)) (limit : Nat) :
    Defined d.Admits (evaluate scope limit [] (.name name)) := by
  obtain ⟨inBody, hbody, heq⟩ := Evaluation.exists_inBody limit (limit + scope.size)
  unfold evaluate
  rw [heq]
  exact Evaluation.resolves_nameType_of_lookup hbody hs hl (Entries.get?_nil name) .empty

end TypedFlow
