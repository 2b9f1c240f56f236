import TypedFlow.Proofs.Evaluation.Results
import TypedFlow.Proofs.Scope.Build

/-!
# Disjointness of evaluated types

What evaluation keeps of types also holds of those that a scope keeps for its structs and enums, if
it was built and its structs list each field once. So all types that evaluation returns there are
disjoint in one order if they are in the other. Nothing checks that fields have different names,
though: a struct that repeats a field finds each of its fields in another struct of its name and
size, which need not find all of its own in return.
-/
namespace TypedFlow
open TypedFlow.Ty (OrderlyLayer)

namespace ScopeBuilder
variable {b : ScopeBuilder}

theorem outer_mix (b : ScopeBuilder) (i : Ingredient) : (b.mix i).outer = b.outer := by
  cases i with
  | builtin f => rfl
  | source text =>
    have haddAll : ∀ ds, (b.addAll ds).1.outer = b.outer := by
      intro ds
      induction ds generalizing b with
      | nil => rfl
      | cons d ds ih =>
        unfold addAll add
        by_cases hhas : b.definitions.has d.name = true
        · simp only [if_pos hhas]
        · simp only [if_neg hhas]
          exact ih _
    simp only [mix, addSource]
    cases Declaration.parse text with
    | error e => rfl
    | ok ds => exact haddAll ds

theorem outer_foldl_mix (name : String) (outer : Scope) (ingredients : List Ingredient) :
    (ingredients.foldl mix (.new name outer)).outer = outer :=
  List.foldlRecOn (motive := fun b => b.outer = outer) ingredients mix rfl fun b hb i _ =>
    (outer_mix b i).trans hb

variable {C : Ty → Prop}

theorem supplies_layered (houter : b.outer.Supplies C)
    (hfields : ∀ entry ∈ b.definitions, entry.2.FieldsOnce)
    (hlisted : ∀ entry ∈ b.definitions, entry.2.Listed) {kept : Entries Ty}
    (hkept : ∀ entry ∈ kept, Ty.Everywhere C entry.2) : (b.layered kept).Supplies C where
  fieldsOnce := List.forall_mem_cons.2 ⟨hfields, houter.fieldsOnce⟩
  listed := List.forall_mem_cons.2 ⟨hlisted, houter.listed⟩
  kept := List.forall_mem_cons.2 ⟨hkept, houter.kept⟩

theorem supplies_of_build (hc : Evaluated C) (houter : b.outer.Supplies C)
    (hfields : ∀ entry ∈ b.definitions, entry.2.FieldsOnce)
    (hlisted : ∀ entry ∈ b.definitions, entry.2.Listed) {scope : Scope}
    (h : b.build = .ok scope) : scope.Supplies C := by
  obtain ⟨-, resolved, hresolved, rfl⟩ := of_build h
  refine supplies_layered houter hfields hlisted fun entry hentry => ?_
  obtain ⟨kept, hkept, hentry⟩ := List.mem_flatten.1 hentry
  obtain ⟨⟨name, d⟩, -, hresolution⟩ := exists_of_mem_mapM hresolved kept hkept
  have hpreliminary : (b.layered []).Supplies C :=
    supplies_layered houter hfields hlisted (by simp)
  obtain ⟨-, hany | hrun⟩ := of_mem_resolution hresolution hentry
  · exact hany ▸ hc.any
  · exact everywhere_of_evaluate hc hpreliminary Evaluation.bindsAll_nil hrun

theorem Sound.listed (h : b.Sound) : ∀ entry ∈ b.definitions, entry.2.Listed := by
  intro entry hentry
  have hgathered := h.gathered entry hentry
  cases hd : entry.2 with
  | builtin f => trivial
  | declared d =>
    rw [hd] at hgathered
    exact hgathered.2.listed

end ScopeBuilder

namespace Scope.Built
variable {scope scope' : Scope}

theorem supplies {C : Ty → Prop} (hc : Evaluated C) (h : scope.Built) (hfields : scope.FieldsOnce) :
    scope.Supplies C := by
  induction h with
  | nothing => exact ⟨hfields, by simp [Scope.Listed], by simp⟩
  | @layer name outer scope ingredients outside build ih =>
    have houter := ScopeBuilder.outer_foldl_mix name outer ingredients
    have hsound := ScopeBuilder.sound_foldl_mix name outside.complete ingredients
    obtain ⟨-, _, -, hscope⟩ := ScopeBuilder.of_build build
    rw [hscope, ScopeBuilder.layered, FieldsOnce, List.forall_mem_cons, houter] at hfields
    have hbuilder : (ingredients.foldl ScopeBuilder.mix (.new name outer)).outer.Supplies C := by
      rw [houter]
      exact ih hfields.2
    exact ScopeBuilder.supplies_of_build hc hbuilder hfields.1 hsound.listed build

/-- Also where the types come from different scopes and where types are bound. -/
theorem isDisjoint_comm (h : scope.Built) (h' : scope'.Built) (hfields : scope.FieldsOnce)
    (hfields' : scope'.FieldsOnce) {limit limit' : Nat} {bindings bindings' : Bindings}
    (hb : Evaluation.BindsAll OrderlyLayer bindings)
    (hb' : Evaluation.BindsAll OrderlyLayer bindings')
    {e e' : Expr} {s t : Ty} (hs : evaluate scope limit bindings e = .ok s)
    (ht : evaluate scope' limit' bindings' e' = .ok t) : s.isDisjoint t = t.isDisjoint s := by
  have hc := evaluated_orderlyLayer
  exact Ty.isDisjoint_comm (everywhere_of_evaluate hc (h.supplies hc hfields) hb hs)
    (everywhere_of_evaluate hc (h'.supplies hc hfields') hb' ht)

end Scope.Built

section Repeated

def repeatingLayer : Layer where
  name := "repeating"
  definitions := [("P", .declared (.alias "P" (.name "S"))),
    ("S", .declared (.struct "S" [("x", .string "on"), ("x", .string "on")]))]
  resolved := [("S", .struct "S" [("x", .stringLiteral "on"), ("x", .stringLiteral "on")])]

def distinctLayer : Layer where
  name := "distinct"
  definitions := [("S", .declared (.struct "S" [("x", .string "on"), ("y", .string "on")]))]
  resolved := [("S", .struct "S" [("x", .stringLiteral "on"), ("y", .stringLiteral "on")])]

/-- Both fields of the struct behind `P` are found in `S`, which has one more of its own. -/
theorem repeated_field_is_asymmetric :
    ScopeBuilder.build ⟨"repeating", [], repeatingLayer.definitions⟩ = .ok [repeatingLayer] ∧
      ScopeBuilder.build ⟨"distinct", [repeatingLayer], distinctLayer.definitions⟩ =
        .ok [distinctLayer, repeatingLayer] ∧
      ∃ s t, evaluate [distinctLayer, repeatingLayer] defaultCallDepth [] (.name "P") = .ok s ∧
        evaluate [distinctLayer, repeatingLayer] defaultCallDepth [] (.name "S") = .ok t ∧
        s.isDisjoint t = false ∧ t.isDisjoint s = true := by
  refine ⟨rfl, rfl, _, _, rfl, rfl, ?_, ?_⟩
  · have hnil : ∀ others, Ty.intersectFields [] others = some [] := fun _ => by
      rw [Ty.intersectFields]
    simp [Ty.isDisjoint, Ty.intersect, Ty.intersectFields_cons, hnil, Ty.sameShape, Entries.has,
      Entries.get?_cons, Ty.isNever]
  · simp [Ty.isDisjoint, Ty.intersect, Ty.sameShape, Entries.has, Ty.isNever]

end Repeated
end TypedFlow
