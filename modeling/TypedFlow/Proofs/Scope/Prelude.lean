import TypedFlow.Proofs.Scope.Build
import TypedFlow.Proofs.Scope.Layering
import TypedFlow.Scope.Prelude

/-!
# Finding built-in functions

A layer keeps the definitions that it has: a source adds only names that are new, and building
changes none. So the prelude has every built-in function under its name, where it is found from
every chain of scopes over the prelude that does not declare this name again.
-/
namespace TypedFlow

namespace Builtin

theorem mem_all (f : Builtin) : f ∈ all := by
  cases f <;> decide

theorem ofName?_name (f : Builtin) : ofName? f.name = some f := by
  cases f <;> decide

theorem name_injective : Function.Injective name := by
  intro f g h
  have hfound := ofName?_name f
  rw [h, ofName?_name g] at hfound
  exact (Option.some.inj hfound).symm

end Builtin

namespace ScopeBuilder
variable {b : ScopeBuilder} {n : String} {d : Definition}

theorem get?_foldl_withBuiltin (f : Builtin) (functions : List Builtin) :
    (functions.foldl withBuiltin b).definitions.get? f.name =
      if f ∈ functions then some (.builtin f) else b.definitions.get? f.name := by
  induction functions generalizing b with
  | nil => rfl
  | cons g functions ih =>
    rw [List.foldl_cons, ih, withBuiltin, Entries.get?_insert]
    by_cases hmem : f ∈ functions
    · rw [if_pos hmem, if_pos (List.mem_cons_of_mem g hmem)]
    · rw [if_neg hmem]
      by_cases hfg : g = f
      · rw [hfg, if_pos rfl, if_pos List.mem_cons_self]
      · have hnot : f ∉ g :: functions := fun h =>
          (List.mem_cons.1 h).elim (fun heq => hfg heq.symm) hmem
        rw [if_neg fun h => hfg (Builtin.name_injective h), if_neg hnot]

theorem get?_addAll (h : b.definitions.get? n = some d) (ds : List Declaration) :
    (b.addAll ds).1.definitions.get? n = some d := by
  induction ds generalizing b with
  | nil => exact h
  | cons e ds ih =>
    unfold addAll add
    by_cases hhas : b.definitions.has e.name = true
    · simp only [if_pos hhas]
      exact h
    · simp only [if_neg hhas]
      apply ih
      have hne : e.name ≠ n := by
        rintro rfl
        rw [Entries.has_eq_isSome, h] at hhas
        exact hhas rfl
      rw [Entries.get?_insert, if_neg hne, h]

theorem get?_addSource (h : b.definitions.get? n = some d) (source : String) :
    (b.addSource source).1.definitions.get? n = some d := by
  unfold addSource
  cases Declaration.parse source with
  | error e => exact h
  | ok ds => exact get?_addAll h ds

theorem lookup_of_build {scope : Scope} (h : b.definitions.get? n = some d)
    (hbuild : b.build = .ok scope) : scope.lookup n = some (d, scope) := by
  obtain ⟨-, resolved, -, rfl⟩ := of_build hbuild
  rw [Scope.lookup, h]

end ScopeBuilder

namespace Scope
variable {root : Scope}

/-- The prelude has the built-in functions under their names. -/
theorem lookup_prelude (h : prelude = .ok root) (f : Builtin) :
    root.lookup f.name = some (.builtin f, root) := by
  obtain ⟨-, -, hbuild⟩ := of_bind_eq_ok h
  refine ScopeBuilder.lookup_of_build (ScopeBuilder.get?_addSource ?_ preludeSource) hbuild
  rw [ScopeBuilder.get?_foldl_withBuiltin, if_pos f.mem_all]

/-- Layers that do not declare a name do not stand before it. -/
theorem lookup_append {n : String} {inner : Scope}
    (h : ∀ layer ∈ inner, layer.definitions.get? n = none) :
    (inner ++ root).lookup n = root.lookup n := by
  induction inner with
  | nil => rfl
  | cons layer inner ih =>
    obtain ⟨hlayer, h⟩ := List.forall_mem_cons.1 h
    rw [List.cons_append, lookup_of_undeclared hlayer, ih h]

end Scope

end TypedFlow
