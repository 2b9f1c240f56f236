import TypedFlow.Proofs.Evaluation.Limits
import TypedFlow.Proofs.Scope.Build

/-!
# What is refused as recursive

A layer is refused as recursive for a definition that leads back to itself, but also for one that
leads from some name to another definition of this name in an enclosing scope, or through too many
functions. Without shadowing, and with few enough functions, something leads back to itself.
-/
namespace TypedFlow
open Relation (ReflTransGen TransGen)

namespace ScopeBuilder

theorem of_resolution_eq_recursive {scope : Scope} {name n : String} {d : Definition}
    (h : resolution scope name d = .error (.recursive n)) :
    name = n ∧ (∃ declaration : Declaration, d = .declared declaration ∧
      declaration.isFunction = false) ∧ ∃ function depth,
        evaluate scope defaultCallDepth [] (.name name) = .error (.recursionLimit function depth) := by
  unfold resolution at h
  dsimp only at h
  split at h
  case h_4 => cases h
  all_goals
    split at h
    all_goals cases h
    rename_i heval
    exact ⟨rfl, ⟨_, rfl, rfl⟩, _, _, heval⟩

theorem checkReferences_ne_recursive (scope : Scope) (name : String) (d : Definition) (n : String) :
    checkReferences scope name d ≠ .error (.recursive n) := by
  unfold checkReferences
  split
  · exact nofun
  · split <;> exact nofun

section Build
variable {b : ScopeBuilder} {n : String}

theorem of_build_eq_recursive (h : b.build = .error (.recursive n)) :
    (∀ entry ∈ b.definitions, checkReferences (b.layered []) entry.1 entry.2 = .ok ()) ∧
      ∃ declaration : Declaration, (n, .declared declaration) ∈ b.definitions ∧
        declaration.isFunction = false ∧ ∃ function depth,
          evaluate (b.layered []) defaultCallDepth [] (.name n) =
            .error (.recursionLimit function depth) := by
  unfold build at h
  rcases of_bind_eq_error h with hchecks | ⟨_, hchecks, h⟩
  · obtain ⟨⟨name, d⟩, -, hcheck⟩ := exists_of_forIn_eq_error hchecks
    exact absurd hcheck (checkReferences_ne_recursive _ name d n)
  · refine ⟨ok_of_forIn hchecks, ?_⟩
    rcases of_bind_eq_error h with hresolved | ⟨resolved, -, h⟩
    · obtain ⟨⟨name, d⟩, hmem, hresolution⟩ := exists_of_mapM_eq_error hresolved
      obtain ⟨rfl, ⟨declaration, rfl, hfunction⟩, hlimit⟩ := of_resolution_eq_recursive hresolution
      exact ⟨declaration, hmem, hfunction, hlimit⟩
    · cases h

/-- From the definition that is blamed a trail goes on until it resolves a name again or makes too
many calls. -/
theorem Sound.recurs_of_build (hb : b.Sound) (h : b.build = .error (.recursive n)) :
    ∃ d : Declaration, b.definitions.get? n = some (.declared d) ∧ d.isFunction = false ∧
      ∃ trail, Trail (· = (d, b.layered [])) trail ∧ Trail.Recurs defaultCallDepth trail ∧
        ∀ x ∈ trail, (b.layered []).Holds x := by
  obtain ⟨hchecks, d, hmem, hfunction, function, depth, heval⟩ := of_build_eq_recursive h
  have hcomplete : (b.layered []).Complete :=
    hb.complete_layered hchecks fun _ _ _ _ h => by cases h
  have hget := Entries.get?_of_mem hb.ascending.nodup hmem
  have hlookup : (b.layered []).lookup n = some (.declared d, b.layered []) := by
    rw [Scope.lookup, hget]
  obtain ⟨trail, htrail, hrecurs⟩ :=
    recurs_of_evaluate hcomplete (Evaluation.binds_nil []) heval
  have hroot : ∀ x, (b.layered []).Opens (Expr.references [] (.name n)) x → x = (d, b.layered []) := by
    rintro x ⟨⟨m, hm, hrefers⟩, -⟩
    obtain rfl := List.mem_singleton.1 hm
    rcases hrefers with hx | ⟨hnone, -⟩
    · exact Scope.eq_of_lookup (y := (d, b.layered [])) hx hlookup
    · rw [hlookup] at hnone
      cases hnone
  have hholds : ∀ x, x = (d, b.layered []) → (b.layered []).Holds x := by
    rintro x rfl
    exact hcomplete.holds (List.suffix_refl _) (.inl hlookup)
  have htrail := htrail.mono hroot
  exact ⟨d, hget, hfunction, trail, htrail, hrecurs, htrail.holds hcomplete hholds⟩

end Build
end ScopeBuilder

namespace Scope.Built
variable {name n : String} {outer : Scope} {ingredients : List Ingredient}

/-- What is blamed for recursion leads to two definitions of one name, the first of which leads to
the second, or through more functions than may be open at once. -/
theorem of_build_eq_recursive (houter : outer.Built) {b : ScopeBuilder}
    (hb : b = ingredients.foldl ScopeBuilder.mix (.new name outer))
    (h : b.build = .error (.recursive n)) :
    ∃ d : Declaration, b.definitions.get? n = some (.declared d) ∧ d.isFunction = false ∧
      ((∃ x y : Held, ReflTransGen Held.Leads (d, b.layered []) x ∧ TransGen Held.Leads x y ∧
          x.1.isFunction = false ∧ y.1.isFunction = false ∧ x.1.name = y.1.name) ∨
        ∃ trail, Trail (· = (d, b.layered [])) trail ∧ defaultCallDepth < Trail.calls trail) := by
  subst hb
  have hsound := ScopeBuilder.sound_foldl_mix name houter.complete ingredients
  obtain ⟨d, hget, hfunction, trail, htrail, hrecurs, -⟩ := hsound.recurs_of_build h
  refine ⟨d, hget, hfunction, ?_⟩
  rcases hrecurs with hdup | hcalls
  · obtain ⟨x, hx, y, hy, hxfunction, hyfunction, hname, hleads⟩ := htrail.exists_repeated hdup
    obtain ⟨root, rfl, hreach⟩ := htrail.exists_start x hx
    exact .inl ⟨x, y, hreach, hleads, hxfunction, hyfunction, hname⟩
  · exact .inr ⟨trail, htrail, hcalls⟩

/-- Where no name is defined by two layers and no trail makes too many calls, what is blamed leads to
a definition that leads back to itself. -/
theorem exists_cycle_of_build_eq_recursive (houter : outer.Built) {b : ScopeBuilder}
    (hb : b = ingredients.foldl ScopeBuilder.mix (.new name outer))
    (h : b.build = .error (.recursive n)) (hnames : (b.layered []).names.Nodup)
    (hcalls : ∀ root trail, Trail (· = root) trail → Trail.calls trail ≤ defaultCallDepth) :
    ∃ d : Declaration, b.definitions.get? n = some (.declared d) ∧
      ∃ x : Held, ReflTransGen Held.Leads (d, b.layered []) x ∧ TransGen Held.Leads x x := by
  subst hb
  have hsound := ScopeBuilder.sound_foldl_mix name houter.complete ingredients
  obtain ⟨d, hget, -, trail, htrail, hrecurs, hholds⟩ := hsound.recurs_of_build h
  have hdup := hrecurs.resolve_right (Nat.not_lt.2 (hcalls _ trail htrail))
  obtain ⟨x, hx, y, hy, -, -, hname, hleads⟩ := htrail.exists_repeated hdup
  obtain ⟨root, rfl, hreach⟩ := htrail.exists_start x hx
  obtain rfl := (hholds x hx).eq_of_name_eq (hholds y hy) hnames hname
  exact ⟨d, hget, x, hreach, hleads⟩

end Scope.Built

section Shadowing

def plainLayer : Layer where
  name := "plain"
  definitions := [("a", .declared (.alias "a" (.number 1))), ("b", .declared (.alias "b" (.name "a")))]
  resolved := []

def shadowingAlias : Declaration := .alias "a" (.name "b")

def shadowingBuilder : ScopeBuilder where
  name := "shadowing"
  outer := [plainLayer]
  definitions := [("a", .declared shadowingAlias)]

/-- The alias leads to `b` and on to the other `a`, but nothing leads back into its own layer. -/
theorem shadowing_is_refused :
    ScopeBuilder.build ⟨"plain", [], plainLayer.definitions⟩ = .ok [plainLayer] ∧
      shadowingBuilder.build = .error (.recursive "a") ∧
      ¬ TransGen Held.Leads (shadowingAlias, shadowingBuilder.layered [])
        (shadowingAlias, shadowingBuilder.layered []) := by
  refine ⟨rfl, rfl, fun hcycle => ?_⟩
  obtain ⟨y, ⟨⟨n, hn, hrefers⟩, -⟩, hback⟩ := Relation.TransGen.head'_iff.1 hcycle
  obtain rfl := List.mem_singleton.1 hn
  have hlookup : (shadowingBuilder.layered []).lookup "b" =
      some (.declared (.alias "b" (.name "a")), [plainLayer]) := rfl
  have hy : y.2 = [plainLayer] := by
    rcases hrefers with hfound | ⟨hnone, -⟩
    · rw [Scope.eq_of_lookup (y := (_, [plainLayer])) hfound hlookup]
    · rw [hlookup] at hnone
      cases hnone
  have hlength := (Held.suffix_of_reaches hback).length_le
  rw [hy] at hlength
  exact absurd hlength (by decide)

end Shadowing
end TypedFlow
