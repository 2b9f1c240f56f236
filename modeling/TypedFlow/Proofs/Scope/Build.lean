import TypedFlow.Proofs.Evaluation.References

/-!
# Built scopes

A scope is built layer by layer, each layer from sources and built-in functions. What a layer
gathers is well formed and under its names; what building checks and keeps makes the chain complete.
-/
namespace TypedFlow

/-- What a layer can be made of. -/
inductive Ingredient
  | source (text : String)
  | builtin (function : Builtin)

/-- A definition as it can be gathered. -/
def Definition.Gathered (name : String) : Definition → Prop
  | .declared d => d.name = name ∧ d.Readable
  | .builtin _ => True

namespace ScopeBuilder

/-- The builder with one ingredient more. A source that fails adds what comes before the fault. -/
def mix (b : ScopeBuilder) : Ingredient → ScopeBuilder
  | .source text => (b.addSource text).1
  | .builtin f => b.withBuiltin f

structure Sound (b : ScopeBuilder) : Prop where
  ascending : b.definitions.Ascending
  gathered : ∀ entry ∈ b.definitions, entry.2.Gathered entry.1
  outside : b.outer.Complete

theorem Sound.insert {b : ScopeBuilder} (h : b.Sound) {name : String} {d : Definition}
    (hd : d.Gathered name) : Sound { b with definitions := b.definitions.insert name d } where
  ascending := Entries.ascending_insert h.ascending
  gathered := fun entry hentry => by
    rcases Entries.mem_insert hentry with rfl | hentry
    · exact hd
    · exact h.gathered entry hentry
  outside := h.outside

theorem Sound.addAll {b : ScopeBuilder} (h : b.Sound) {ds : List Declaration}
    (hread : ∀ d ∈ ds, d.Readable) : (b.addAll ds).1.Sound := by
  induction ds generalizing b with
  | nil => exact h
  | cons d ds ih =>
    rw [List.forall_mem_cons] at hread
    unfold ScopeBuilder.addAll ScopeBuilder.add
    by_cases hhas : b.definitions.has d.name = true
    · simp only [if_pos hhas]
      exact h
    · simp only [if_neg hhas]
      exact ih (h.insert (d := .declared d) ⟨rfl, hread.1⟩) hread.2

theorem Sound.mix {b : ScopeBuilder} (h : b.Sound) (i : Ingredient) : (b.mix i).Sound := by
  cases i with
  | builtin f => exact h.insert (d := .builtin f) trivial
  | source text =>
    simp only [ScopeBuilder.mix, addSource]
    cases hparse : Declaration.parse text with
    | error e => exact h
    | ok ds => exact h.addAll (Declaration.readable_of_parse hparse)

theorem sound_foldl_mix (name : String) {outer : Scope} (houter : outer.Complete)
    (ingredients : List Ingredient) : (ingredients.foldl mix (.new name outer)).Sound := by
  refine List.foldlRecOn ingredients mix ⟨List.Pairwise.nil, ?_, houter⟩ fun b h i _ => h.mix i
  exact fun _ h => absurd h List.not_mem_nil

end ScopeBuilder

section Resolved
variable (name : String) (definitions : Entries Definition) (kept others : Entries Ty)
  (outer : Scope)

/-- What is kept of the types of a layer says nothing about what is defined. -/
theorem Scope.isDefined_resolved (path : String) :
    Scope.isDefined (⟨name, definitions, kept⟩ :: outer) path =
      Scope.isDefined (⟨name, definitions, others⟩ :: outer) path := by
  unfold Scope.isDefined Scope.lookup
  cases definitions.get? path with
  | some d => rfl
  | none =>
    cases Scope.pathParts? path with
    | none => rfl
    | some parts =>
      dsimp only
      cases definitions.get? parts.1 with
      | none => rfl
      | some d =>
        cases d with
        | builtin f => rfl
        | declared d => cases d <;> rfl

theorem ScopeBuilder.firstUndefined_resolved (d : Declaration) :
    firstUndefined (⟨name, definitions, kept⟩ :: outer) d =
      firstUndefined (⟨name, definitions, others⟩ :: outer) d := by
  have hsame : Scope.firstUndefined (⟨name, definitions, kept⟩ :: outer) =
      Scope.firstUndefined (⟨name, definitions, others⟩ :: outer) := by
    funext bound e
    simp only [Scope.firstUndefined, Scope.isDefined_resolved name definitions kept others outer]
  cases d <;> simp only [firstUndefined, hsame]

end Resolved

namespace ScopeBuilder

theorem of_mem_resolution {scope : Scope} {name : String} {d : Definition} {kept : Entries Ty}
    (h : resolution scope name d = .ok kept) {entry : String × Ty} (hentry : entry ∈ kept) :
    entry.1 = name ∧
      (entry.2 = .any ∨ evaluate scope defaultCallDepth [] (.name name) = .ok entry.2) := by
  have hempty : entry ∉ ([] : Entries Ty) := List.not_mem_nil
  unfold resolution at h
  dsimp only at h
  split at h
  case h_1 | h_2 =>
    split at h
    all_goals cases h
    · rename_i t ht
      exact List.mem_singleton.1 hentry ▸ ⟨rfl, .inr ht⟩
    · exact List.mem_singleton.1 hentry ▸ ⟨rfl, .inl rfl⟩
  case h_3 =>
    split at h
    all_goals cases h
    all_goals exact absurd hentry hempty
  case h_4 =>
    cases h
    exact absurd hentry hempty

/-- What a definition contributes to its layer is under its name, and can be its type. -/
theorem admits_of_resolution {scope holder : Scope} (hs : scope.Complete) {name : String}
    {d : Definition} (hl : scope.lookup name = some (d, holder)) {kept : Entries Ty}
    (h : resolution scope name d = .ok kept) : ∀ entry ∈ kept, entry.1 = name ∧ d.Admits entry.2 := by
  intro entry hentry
  obtain ⟨hname, hany | hrun⟩ := of_mem_resolution h hentry
  · exact ⟨hname, hany ▸ d.admits_any⟩
  · have hfound := defined_evaluate_name hs hl defaultCallDepth
    rw [hrun] at hfound
    exact ⟨hname, hfound⟩

section Build
variable {b : ScopeBuilder} {scope : Scope}

/-- The layer of a builder with the types that are kept for it. -/
abbrev layered (b : ScopeBuilder) (kept : Entries Ty) : Scope :=
  ⟨b.name, b.definitions, kept⟩ :: b.outer

theorem of_build (h : b.build = .ok scope) :
    (∀ entry ∈ b.definitions, checkReferences (b.layered []) entry.1 entry.2 = .ok ()) ∧
      ∃ resolved, b.definitions.mapM (fun (name, d) => resolution (b.layered []) name d) =
        .ok resolved ∧ scope = b.layered resolved.flatten := by
  unfold build at h
  obtain ⟨_, hchecks, h⟩ := of_bind_eq_ok h
  obtain ⟨resolved, hresolved, h⟩ := of_bind_eq_ok h
  cases h
  exact ⟨ok_of_forIn hchecks, resolved, hresolved, rfl⟩

theorem Sound.complete_layered (hb : b.Sound)
    (hchecks : ∀ entry ∈ b.definitions, checkReferences (b.layered []) entry.1 entry.2 = .ok ())
    {kept : Entries Ty} (hkept : ∀ name d t, b.definitions.get? name = some d →
      kept.get? name = some t → d.Admits t) : (b.layered kept).Complete := by
  refine ⟨fun name d hget => ⟨?_, fun t => hkept name d t hget⟩, hb.outside⟩
  have hmem := Entries.mem_of_get? hget
  have hgathered := hb.gathered _ hmem
  have hcheck := hchecks _ hmem
  cases d with
  | builtin f => trivial
  | declared d =>
    refine ⟨hgathered.1, hgathered.2.wellFormed, ?_⟩
    rw [firstUndefined_resolved _ _ _ [] _]
    cases hmissing : firstUndefined (b.layered []) d with
    | none => rfl
    | some missing =>
      simp only [checkReferences, hmissing] at hcheck
      cases hcheck

theorem Sound.complete_of_build (hb : b.Sound) (h : b.build = .ok scope) : scope.Complete := by
  obtain ⟨hchecks, resolved, hresolved, rfl⟩ := of_build h
  refine hb.complete_layered hchecks fun name d t hget ht => ?_
  obtain ⟨kept, hkept, hentry⟩ := List.mem_flatten.1 (Entries.mem_of_get? ht)
  obtain ⟨⟨other, found⟩, hmem, hresolution⟩ := exists_of_mem_mapM hresolved kept hkept
  have hpreliminary : (b.layered []).Complete :=
    hb.complete_layered hchecks fun _ _ _ _ h => by cases h
  have hother : b.definitions.get? other = some found :=
    Entries.get?_of_mem hb.ascending.nodup hmem
  have hlookup : (b.layered []).lookup other = some (found, b.layered []) := by
    simp only [Scope.lookup, hother]
  obtain ⟨rfl, hadmits⟩ := admits_of_resolution hpreliminary hlookup hresolution _ hentry
  cases hget.symm.trans hother
  exact hadmits

end Build

end ScopeBuilder

/-- The chains of scopes that can be built: each layer gathers sources and built-in functions, over
a chain that was built before. -/
inductive Scope.Built : Scope → Prop
  | nothing : Built []
  | layer {name : String} {outer scope : Scope} {ingredients : List Ingredient}
      (outside : Built outer)
      (build : (ingredients.foldl ScopeBuilder.mix (.new name outer)).build = .ok scope) :
      Built scope

theorem Scope.Built.complete {scope : Scope} (h : scope.Built) : scope.Complete := by
  induction h with
  | nothing => trivial
  | @layer name outer _ ingredients _ build ih =>
    exact (ScopeBuilder.sound_foldl_mix name ih ingredients).complete_of_build build

end TypedFlow
