import TypedFlow.Proofs.Evaluation.References
import TypedFlow.Proofs.Evaluation.Runs

/-!
# Layers over a scope

Evaluation asks a scope only what the references of an expression mean there. The bodies of the
definitions it opens are read in the scopes that hold them. So a layer over a scope changes the type
of an expression only if it declares a name that the expression refers to, and what it shadows makes
no difference to the definitions of the scopes below.
-/
namespace TypedFlow

/-- The layer declares none of the names, and no owner of one that is a path. -/
def Layer.Leaves (layer : Layer) (names : List String) : Prop :=
  ∀ n ∈ names, layer.definitions.get? n = none ∧
    ∀ owner member, n = pathName owner member → layer.definitions.get? owner = none

/-- A reference means the same in both scopes: the same definition or, where there is none, a
variant of the same owner. -/
def Scope.SeesAs (scope other : Scope) (n : String) : Prop :=
  scope.lookup n = other.lookup n ∧ (scope.lookup n = none → ∀ owner member,
    n = pathName owner member → scope.lookup owner = other.lookup owner)

namespace Evaluation
variable {limit : Nat} {inBody : Evaluator} {scope other : Scope}

theorem nameType_congr {bindings : Bindings} {n : String}
    (h : bindings.get? n = none → scope.lookup n = other.lookup n) :
    nameType limit inBody scope bindings n = nameType limit inBody other bindings n := by
  unfold nameType
  cases hget : bindings.get? n with
  | some t => rfl
  | none => simp only [Scope.resolve, h hget]

theorem variantsOf_congr {owner : String} (h : scope.lookup owner = other.lookup owner)
    (path : String) :
    variantsOf limit inBody scope owner path = variantsOf limit inBody other owner path := by
  simp only [variantsOf, h]

theorem pathType_congr {owner member : String} (h : scope.SeesAs other (pathName owner member)) :
    pathType limit inBody scope owner member = pathType limit inBody other owner member := by
  unfold pathType
  dsimp only
  rw [← h.1]
  cases hlookup : scope.lookup (pathName owner member) with
  | some found => rfl
  | none => rw [variantsOf_congr (h.2 hlookup owner member rfl)]

theorem callType_congr {function : String} (h : scope.SeesAs other function) (args : List Ty) :
    callType limit inBody scope function args = callType limit inBody other function args := by
  unfold callType
  rw [← h.1]
  cases hlookup : scope.lookup function with
  | some found =>
    obtain ⟨d, holder⟩ := found
    cases d with
    | builtin f => rfl
    | declared d => cases d <;> rfl
  | none =>
    cases hparts : Scope.pathParts? function with
    | none => rfl
    | some parts =>
      have howner := h.2 hlookup parts.1 parts.2 (Scope.eq_pathName hparts)
      simp only [variantsOf_congr howner]

mutual

theorem evaluateExpr_congr {bound : List String} {bindings : Bindings} (hb : Binds bindings bound) :
    (e : Expr) → (∀ n ∈ e.references bound, scope.SeesAs other n) →
    evaluateExpr limit inBody scope bindings e = evaluateExpr limit inBody other bindings e
  | .number _, _ => rfl
  | .string _, _ => rfl
  | .range _, _ => rfl
  | .name n, h => by
    apply nameType_congr
    intro hnone
    have hn : n ∉ bound := fun hmem => by simpa [hnone] using hb n hmem
    exact (h n (by simp [Expr.references, hn])).1
  | .path owner member, h => pathType_congr (h _ (List.mem_singleton_self _))
  | .field target n, h => by
    simp only [evaluateExpr, evaluateExpr_congr hb target h]
  | .call function args, h => by
    rw [Expr.references, List.forall_mem_cons] at h
    simp only [evaluateExpr, evaluateAll_congr hb args h.2, callType_congr h.1]
  | .record n fields, h => by
    rw [Expr.references, List.forall_mem_cons] at h
    simp only [evaluateExpr, nameType_congr fun _ => h.1.1, refineFields_congr hb n fields h.2]
  | .binary op left right, h => by
    rw [Expr.references, List.forall_mem_append] at h
    simp only [evaluateExpr, evaluateExpr_congr hb left h.1, evaluateExpr_congr hb right h.2]
  | .negate operand, h => by
    simp only [evaluateExpr, evaluateExpr_congr hb operand h]
  | .select scrutinee arms, h => by
    rw [Expr.references, List.forall_mem_append] at h
    simp only [evaluateExpr, evaluateExpr_congr hb scrutinee h.1, evaluateArms_congr hb arms h.2]

theorem evaluateAll_congr {bound : List String} {bindings : Bindings} (hb : Binds bindings bound) :
    (exprs : List Expr) → (∀ n ∈ Expr.referencesAll bound exprs, scope.SeesAs other n) →
    evaluateAll limit inBody scope bindings exprs = evaluateAll limit inBody other bindings exprs
  | [], _ => rfl
  | e :: exprs, h => by
    rw [Expr.referencesAll, List.forall_mem_append] at h
    simp only [evaluateAll, evaluateExpr_congr hb e h.1, evaluateAll_congr hb exprs h.2]

theorem refineFields_congr {bound : List String} {bindings : Bindings} (hb : Binds bindings bound)
    (record : String) : (fields : List (String × Expr)) →
    (∀ n ∈ Expr.referencesFields bound fields, scope.SeesAs other n) →
    ∀ declared slots, refineFields limit inBody scope bindings record declared slots fields =
      refineFields limit inBody other bindings record declared slots fields
  | [], _ => fun _ _ => rfl
  | (field, e) :: fields, h => by
    intro declared slots
    rw [Expr.referencesFields, List.forall_mem_append] at h
    simp only [refineFields, evaluateExpr_congr hb e h.1, refineFields_congr hb record fields h.2]

theorem evaluateArms_congr {bound : List String} {bindings : Bindings} (hb : Binds bindings bound) :
    (arms : List (MatchArm Expr)) →
    (∀ n ∈ Expr.referencesArms bound arms, scope.SeesAs other n) →
    ∀ scrutinee, evaluateArms limit inBody scope bindings scrutinee arms =
      evaluateArms limit inBody other bindings scrutinee arms
  | [], _ => fun _ => rfl
  | ⟨none, binding, body⟩ :: arms, h => by
    intro scrutinee
    rw [Expr.referencesArms, List.forall_mem_append] at h
    exact evaluateExpr_congr (hb.bindArm binding scrutinee) body h.1
  | ⟨some pattern, binding, body⟩ :: arms, h => by
    intro scrutinee
    rw [Expr.referencesArms, List.forall_mem_append, List.forall_mem_append] at h
    have hbody := fun t => evaluateExpr_congr (hb.bindArm binding t) body h.1.2
    simp only [evaluateArms, evaluateExpr_congr hb pattern h.1.1, evaluateArms_congr hb arms h.2,
      hbody]

end

theorem evaluateAt_congr {bound : List String} {bindings : Bindings} (hb : Binds bindings bound)
    {e : Expr} (h : ∀ n ∈ e.references bound, scope.SeesAs other n) (levels : Nat) :
    evaluateAt limit levels scope bindings e = evaluateAt limit levels other bindings e := by
  cases levels with
  | zero => exact evaluateExpr_congr hb e h
  | succ levels => exact evaluateExpr_congr hb e h

/-- The two scopes may have different sizes, and evaluation starts with different numbers of levels
in them. -/
theorem evaluate_congr {bound : List String} {bindings : Bindings} (hb : Binds bindings bound)
    {e : Expr} (h : ∀ n ∈ e.references bound, scope.SeesAs other n) (limit : Nat) :
    evaluate scope limit bindings e = evaluate other limit bindings e := by
  let levels := limit + (scope.size + other.size)
  have hscope : limit + scope.size ≤ levels :=
    Nat.add_le_add_left (Nat.le_add_right scope.size other.size) limit
  have hother : limit + other.size ≤ levels :=
    Nat.add_le_add_left (Nat.le_add_left other.size scope.size) limit
  rw [evaluate_of_levels hscope, evaluate_of_levels hother, evaluateAt_congr hb h]

theorem binds_names (bindings : Bindings) : Binds bindings (Entries.names bindings) :=
  fun _ hn => Entries.get?_isSome_iff.2 hn

end Evaluation

namespace Scope
variable {layer : Layer} {outer holder : Scope} {n : String} {d : Definition}

theorem lookup_of_undeclared (h : layer.definitions.get? n = none) :
    lookup (layer :: outer) n = outer.lookup n := by
  rw [lookup, h]

/-- What is found in a scope is found again in the part of the scope that holds it. -/
theorem lookup_of_lookup {scope : Scope} (h : scope.lookup n = some (d, holder)) :
    holder.lookup n = some (d, holder) := by
  obtain ⟨-, hlocal⟩ := of_lookup h
  cases holder with
  | nil => cases hlocal
  | cons layer outer =>
    have hget : layer.definitions.get? n = some d := hlocal
    rw [lookup, hget]

theorem seesAs_of_lookup {scope other : Scope} (h : scope.lookup n = some (d, holder))
    (hother : other.lookup n = some (d, holder)) : scope.SeesAs other n := by
  refine ⟨h.trans hother.symm, ?_⟩
  intro hnone
  rw [h] at hnone
  cases hnone

end Scope

theorem Expr.referencesAll_names {names bound : List String} (h : names ⊆ bound) :
    referencesAll bound (names.map .name) = [] := by
  induction names with
  | nil => rfl
  | cons n names ih =>
    rw [List.cons_subset] at h
    have hn : bound.contains n = true := List.contains_iff_mem.2 h.1
    rw [List.map_cons, referencesAll, references, if_pos hn, ih h.2]
    rfl

section Layering
open Evaluation (Binds)

/-- A layer that declares nothing an expression refers to, nor an owner of it, does not change what
the expression evaluates to. What a definition evaluates to, also when it is called with any types,
is what it evaluates to in the scope that holds it. -/
theorem layer_is_conservative (layer : Layer) (outer : Scope) (limit : Nat) :
    (∀ bindings e, layer.Leaves (e.references (Entries.names bindings)) →
      evaluate (layer :: outer) limit bindings e = evaluate outer limit bindings e) ∧
    ∀ n d holder, outer.lookup n = some (d, holder) → layer.definitions.get? n = none →
      ∀ bindings,
        evaluate (layer :: outer) limit bindings (.name n) =
          evaluate holder limit bindings (.name n) ∧
        ∀ args, Binds bindings args →
          evaluate (layer :: outer) limit bindings (.call n (args.map .name)) =
            evaluate holder limit bindings (.call n (args.map .name)) := by
  constructor
  · intro bindings e hleaves
    apply Evaluation.evaluate_congr (Evaluation.binds_names bindings)
    intro n hn
    obtain ⟨hname, howner⟩ := hleaves n hn
    refine ⟨Scope.lookup_of_undeclared hname, ?_⟩
    intro _ owner member heq
    exact Scope.lookup_of_undeclared (howner owner member heq)
  · intro n d holder hlookup hname bindings
    have hsees : Scope.SeesAs (layer :: outer) holder n :=
      Scope.seesAs_of_lookup ((Scope.lookup_of_undeclared hname).trans hlookup)
        (Scope.lookup_of_lookup hlookup)
    constructor
    · apply Evaluation.evaluate_congr (Evaluation.binds_nil bindings)
      intro m hm
      obtain rfl := List.mem_singleton.1 hm
      exact hsees
    · intro args hargs
      apply Evaluation.evaluate_congr hargs
      intro m hm
      rw [Expr.references, Expr.referencesAll_names (List.Subset.refl args)] at hm
      obtain rfl := List.mem_singleton.1 hm
      exact hsees

/-! A scope with an alias `a` of `b`, and a layer over it that shadows `b` alone. -/

def basisLayer : Layer where
  name := "basis"
  definitions := [("E", .declared (.enum "E" [("A", none)])),
    ("a", .declared (.alias "a" (.name "b"))),
    ("b", .declared (.alias "b" (.string "outer"))),
    ("f", .declared (.function "f" [("x", .name "b")] (.binary .union (.name "x") (.name "a"))))]
  resolved := [("E", .enum "E" [("A", none)])]

def coverLayer : Layer where
  name := "cover"
  definitions := [("b", .declared (.alias "b" (.string "inner")))]
  resolved := []

def coveredExpr : Expr := .binary .union (.path "E" "A") (.call "f" [.name "a"])

theorem cover_leaves_basis :
    coverLayer.Leaves (coveredExpr.references (Entries.names ([] : Bindings))) ∧
    evaluate [coverLayer, basisLayer] 1 [] coveredExpr = evaluate [basisLayer] 1 [] coveredExpr ∧
    Scope.lookup [basisLayer] "f" = some (.declared (.function "f" [("x", .name "b")]
      (.binary .union (.name "x") (.name "a"))), [basisLayer]) ∧
    coverLayer.definitions.get? "f" = none ∧ Binds [("s", .string)] ["s"] ∧
    evaluate [coverLayer, basisLayer] 1 [("s", .string)] (.call "f" [.name "s"]) =
      evaluate [basisLayer] 1 [("s", .string)] (.call "f" [.name "s"]) := by
  have hconservative := layer_is_conservative coverLayer [basisLayer] 1
  have hleaves : coverLayer.Leaves (coveredExpr.references (Entries.names ([] : Bindings))) := by
    intro n hn
    have hcases : n = "E::A" ∨ n = "f" ∨ n = "a" := by
      simpa [coveredExpr, Expr.references, Expr.referencesAll, pathName] using hn
    refine ⟨?_, fun owner member heq => ?_⟩
    · rcases hcases with rfl | rfl | rfl <;> rfl
    · rw [Entries.get?_eq_none_iff]
      intro hmem
      obtain rfl : owner = "b" := List.mem_singleton.1 hmem
      have hlist := congrArg String.toList heq
      rcases hcases with rfl | rfl | rfl <;> simp [pathName] at hlist
  have hbinds : Binds [("s", .string)] ["s"] := by
    intro n hn
    obtain rfl := List.mem_singleton.1 hn
    rfl
  exact ⟨hleaves, hconservative.1 [] coveredExpr hleaves, rfl, rfl, hbinds,
    (hconservative.2 "f" _ [basisLayer] rfl rfl [("s", .string)]).2 ["s"] hbinds⟩

end Layering
end TypedFlow
