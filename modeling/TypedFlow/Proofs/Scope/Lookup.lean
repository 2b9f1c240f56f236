import TypedFlow.Proofs.Declaration.WellFormed
import TypedFlow.Proofs.Dictionary
import TypedFlow.Scope.Build

/-!
# Complete scopes

A scope is complete when every definition in it refers only to what is defined where the definition
stands, and what is kept for an enum has all its variants. Whatever a lookup finds in a complete
scope stands in a complete scope.
-/
namespace TypedFlow

namespace Scope

theorem splitPath_cons {c : Char} (h : ':' ≠ c) (rest : List Char) :
    splitPath (c :: rest) = (splitPath rest).map fun (owner, member) => (c :: owner, member) := by
  rw [splitPath]
  rintro _ rfl
  exact absurd rfl h

theorem splitPath_of_not_mem {s : List Char} (h : ':' ∉ s) : splitPath s = none := by
  induction s with
  | nil => rfl
  | cons c rest ih =>
    rw [List.mem_cons, not_or] at h
    rw [splitPath_cons h.1, ih h.2]
    rfl

theorem splitPath_append {owner : List Char} (h : ':' ∉ owner) (member : List Char) :
    splitPath (owner ++ ':' :: ':' :: member) = some (owner, member) := by
  induction owner with
  | nil => rfl
  | cons c rest ih =>
    rw [List.mem_cons, not_or] at h
    rw [List.cons_append, splitPath_cons h.1, ih h.2]
    rfl

theorem pathParts?_of_isWord {n : String} (h : IsWord n) : pathParts? n = none := by
  rw [pathParts?, splitPath_of_not_mem h.not_colon]
  rfl

theorem pathParts?_pathName {owner : String} (h : IsWord owner) (member : String) :
    pathParts? (pathName owner member) = some (owner, member) := by
  have hlist : (pathName owner member).toList = owner.toList ++ ':' :: ':' :: member.toList := by
    simp [pathName]
  rw [pathParts?, hlist, splitPath_append h.not_colon]
  simp

theorem eq_append_of_splitPath {s owner member : List Char} (h : splitPath s = some (owner, member)) :
    s = owner ++ ':' :: ':' :: member := by
  induction s using splitPath.induct generalizing owner with
  | case1 rest =>
    rw [splitPath] at h
    cases h
    rfl
  | case2 c rest hcolons ih =>
    rw [splitPath, Option.map_eq_some_iff] at h
    · obtain ⟨⟨first, last⟩, hrest, hparts⟩ := h
      cases hparts
      rw [ih hrest]
      rfl
    · exact hcolons
  | case3 => cases h

theorem eq_pathName {path owner member : String} (h : pathParts? path = some (owner, member)) :
    path = pathName owner member := by
  rw [pathParts?, Option.map_eq_some_iff] at h
  obtain ⟨⟨first, last⟩, hsplit, hparts⟩ := h
  cases hparts
  apply String.toList_injective
  rw [eq_append_of_splitPath hsplit]
  simp [pathName]

end Scope

/-- A definition is held under its name, is well formed, and refers to what its holder defines. -/
def Definition.Complete (holder : Scope) (name : String) : Definition → Prop
  | .declared d => d.name = name ∧ d.WellFormed ∧ ScopeBuilder.firstUndefined holder d = none
  | .builtin _ => True

/-- A type can be that of a definition: an enum has all its variants unless it counts as `any`. -/
def Definition.Admits (t : Ty) : Definition → Prop
  | .declared (.enum name variants) => t = .any ∨
    ∃ payloads, t = .enum name payloads ∧
      ∀ v ∈ Entries.names variants, (Entries.get? payloads v).isSome = true
  | _ => True

theorem Definition.admits_any (d : Definition) : d.Admits .any := by
  cases d with
  | builtin f => trivial
  | declared d =>
    cases d with
    | enum name variants => exact .inl rfl
    | struct | function | «alias» => trivial

namespace Scope

def Complete : Scope → Prop
  | [] => True
  | layer :: outer =>
    (∀ name d, layer.definitions.get? name = some d → d.Complete (layer :: outer) name ∧
      ∀ t, layer.resolved.get? name = some t → d.Admits t) ∧
    Complete outer

variable {scope holder : Scope} {name : String} {d : Definition}

theorem Complete.lookup (h : scope.Complete) (hl : scope.lookup name = some (d, holder)) :
    holder.Complete ∧ d.Complete holder name ∧
      ∀ t, holder.resolved? name = some t → d.Admits t := by
  induction scope with
  | nil => cases hl
  | cons layer outer ih =>
    unfold Scope.lookup at hl
    split at hl
    · rename_i hget
      cases hl
      exact ⟨h, h.1 name d hget⟩
    · exact ih h.2 hl

/-- All of some names are defined. -/
def Defines (scope : Scope) (names : List String) : Prop := ∀ n ∈ names, scope.isDefined n = true

theorem firstUndefined_eq_none_iff {bound : List String} {e : Expr} :
    scope.firstUndefined bound e = none ↔ scope.Defines (e.references bound) := by
  simp [firstUndefined, Defines, List.find?_eq_none]

theorem defines_cons {names : List String} :
    scope.Defines (name :: names) ↔ scope.isDefined name = true ∧ scope.Defines names :=
  List.forall_mem_cons

theorem defines_append {names others : List String} :
    scope.Defines (names ++ others) ↔ scope.Defines names ∧ scope.Defines others :=
  List.forall_mem_append

/-- A word is defined only by a definition of its own. -/
theorem exists_lookup_of_isWord (h : scope.isDefined name = true) (hn : IsWord name) :
    ∃ found, scope.lookup name = some found := by
  rw [isDefined, pathParts?_of_isWord hn, Bool.or_false] at h
  exact Option.isSome_iff_exists.1 h

/-- A path without a definition of its own is that of a variant. -/
theorem exists_variant (h : scope.isDefined name = true) (hl : scope.lookup name = none) :
    ∃ owner member enum variants holder, pathParts? name = some (owner, member) ∧
      scope.lookup owner = some (.declared (.enum enum variants), holder) ∧
      member ∈ Entries.names variants := by
  rw [isDefined, hl, Option.isSome_none, Bool.false_or] at h
  split at h
  · rename_i owner member hparts
    split at h
    · rename_i enum variants holder howner
      rw [Entries.has_eq_isSome, Entries.get?_isSome_iff] at h
      exact ⟨owner, member, enum, variants, holder, hparts, howner, h⟩
    · cases h
  · cases h

end Scope
end TypedFlow
