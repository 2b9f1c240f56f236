import Mathlib.Data.List.Perm.Subperm
import Mathlib.Logic.Relation
import TypedFlow.Proofs.Scope.Lookup

/-!
# Trails of definitions

Evaluation opens definitions one from another. A trail lists those that are open at one moment, the
innermost first: the functions that have been called, and everything else by the names that are
being resolved. In a scope of finite size a trail that is long enough calls too often or resolves a
name twice.
-/
namespace TypedFlow
open Relation (ReflTransGen TransGen)

/-- A declaration with the scope that holds it. -/
abbrev Held := Declaration × Scope

namespace Declaration

def isFunction : Declaration → Bool
  | .function .. => true
  | _ => false

/-- What a declaration refers to besides its own parameters. -/
def references : Declaration → List String
  | .struct _ fields => fields.flatMap fun f => f.2.references []
  | .enum _ variants => variants.flatMap fun v => v.2.elim [] (Expr.references [])
  | .function _ params body =>
    (params.flatMap fun p => p.2.references []) ++ body.references (params.map (·.1))
  | .alias _ value => value.references []

end Declaration

namespace Scope

/-- A name refers to its nearest declaration, and a path that has none to that of its owner. -/
def Refers (scope : Scope) (n : String) (x : Held) : Prop :=
  scope.lookup n = some (.declared x.1, x.2) ∨
    scope.lookup n = none ∧ ∃ owner member, n = pathName owner member ∧
      scope.lookup owner = some (.declared x.1, x.2)

/-- One of the names refers to the declaration, and no type is kept for it. -/
def Opens (scope : Scope) (names : List String) (x : Held) : Prop :=
  (∃ n ∈ names, scope.Refers n x) ∧ (x.1.isFunction = false → x.2.resolved? x.1.name = none)

def names (scope : Scope) : List String := scope.flatMap fun layer => Entries.names layer.definitions

/-- The declaration stands under its name in a part of the scope. -/
def Holds (scope : Scope) (x : Held) : Prop :=
  x.2 <:+ scope ∧ x.2.local? x.1.name = some (.declared x.1)

section Lookup
variable {scope holder : Scope} {n : String} {d : Definition} {x y : Held}

theorem length_names (scope : Scope) : scope.names.length = scope.size := by
  induction scope with
  | nil => rfl
  | cons layer outer ih =>
    rw [names, List.flatMap_cons, List.length_append, size, Entries.names, List.length_map]
    exact congrArg _ ih

theorem of_lookup (h : scope.lookup n = some (d, holder)) :
    holder <:+ scope ∧ holder.local? n = some d := by
  induction scope with
  | nil => cases h
  | cons layer outer ih =>
    unfold Scope.lookup at h
    split at h
    · rename_i hget
      cases h
      exact ⟨List.suffix_refl _, hget⟩
    · obtain ⟨hsuffix, hlocal⟩ := ih h
      exact ⟨hsuffix.trans (List.suffix_cons layer outer), hlocal⟩

theorem eq_of_lookup (hx : scope.lookup n = some (.declared x.1, x.2))
    (hy : scope.lookup n = some (.declared y.1, y.2)) : x = y := by
  rw [hx, Option.some_inj, Prod.mk_inj, Definition.declared.injEq] at hy
  exact Prod.ext hy.1 hy.2

theorem Complete.of_suffix (h : scope.Complete) (hsuffix : holder <:+ scope) : holder.Complete := by
  induction scope with
  | nil =>
    rw [List.suffix_nil.1 hsuffix]
    trivial
  | cons layer outer ih =>
    rcases List.suffix_cons_iff.1 hsuffix with rfl | hinside
    · exact h
    · exact ih h.2 hinside

theorem Complete.holds (h : scope.Complete) (hsuffix : holder <:+ scope) (hx : holder.Refers n x) :
    scope.Holds x := by
  have hlookup : ∀ m, holder.lookup m = some (.declared x.1, x.2) → scope.Holds x := by
    intro m hm
    obtain ⟨hinside, hlocal⟩ := of_lookup hm
    obtain ⟨-, hcomplete, -⟩ := (h.of_suffix hsuffix).lookup hm
    have hname : x.1.name = m := hcomplete.1
    exact ⟨hinside.trans hsuffix, hname ▸ hlocal⟩
  rcases hx with hx | ⟨-, owner, -, -, hx⟩
  · exact hlookup n hx
  · exact hlookup owner hx

theorem Holds.mem_names (h : scope.Holds x) : x.1.name ∈ scope.names := by
  obtain ⟨d, holder⟩ := x
  obtain ⟨hsuffix, hlocal⟩ := h
  cases holder with
  | nil => cases hlocal
  | cons layer outer =>
    have hmem : d.name ∈ Entries.names layer.definitions :=
      Entries.get?_isSome_iff.1 (Option.isSome_iff_exists.2 ⟨_, hlocal⟩)
    exact List.mem_flatMap.2 ⟨layer, hsuffix.subset List.mem_cons_self, hmem⟩

/-- Where no name is defined by two layers, lookup finds whatever is held. -/
theorem Holds.lookup (h : scope.Holds x) (hnames : scope.names.Nodup) :
    scope.lookup x.1.name = some (.declared x.1, x.2) := by
  obtain ⟨d, holder⟩ := x
  induction scope with
  | nil =>
    obtain ⟨hsuffix, hlocal⟩ := h
    cases List.suffix_nil.1 hsuffix
    cases hlocal
  | cons layer outer ih =>
    obtain ⟨hsuffix, hlocal⟩ := h
    rcases List.suffix_cons_iff.1 hsuffix with rfl | hinside
    · have hget : layer.definitions.get? d.name = some (.declared d) := hlocal
      rw [Scope.lookup, hget]
    · have hheld : Scope.Holds outer (d, holder) := ⟨hinside, hlocal⟩
      rw [names, List.flatMap_cons, List.nodup_append] at hnames
      have hnone : layer.definitions.get? d.name = none := Entries.get?_eq_none_iff.2 fun hmem =>
        hnames.2.2 _ hmem _ hheld.mem_names rfl
      rw [Scope.lookup, hnone]
      exact ih hnames.2.1 hheld

theorem Holds.eq_of_name_eq (hx : scope.Holds x) (hy : scope.Holds y) (hnames : scope.names.Nodup)
    (hname : x.1.name = y.1.name) : x = y := by
  have hlookup := hx.lookup hnames
  rw [hname] at hlookup
  exact eq_of_lookup hlookup (hy.lookup hnames)

end Lookup

end Scope

/-- The first declaration opens the second. -/
def Held.Leads (x y : Held) : Prop := x.2.Opens x.1.references y

theorem Held.Leads.suffix {x y : Held} (h : x.Leads y) : y.2 <:+ x.2 := by
  obtain ⟨⟨n, -, hlookup | ⟨-, owner, -, -, hlookup⟩⟩, -⟩ := h
  · exact (Scope.of_lookup hlookup).1
  · exact (Scope.of_lookup hlookup).1

theorem Held.suffix_of_reaches {x y : Held} (h : ReflTransGen Held.Leads x y) : y.2 <:+ x.2 := by
  induction h with
  | refl => exact List.suffix_refl _
  | tail _ hleads ih => exact hleads.suffix.trans ih

/-- Declarations that are open, each from the one that is next in the list. -/
inductive Trail (start : Held → Prop) : List Held → Prop
  | first {x : Held} : start x → Trail start [x]
  | next {x y : Held} {trail : List Held} : Trail start (x :: trail) → x.Leads y →
      Trail start (y :: x :: trail)

namespace Trail

def calls (trail : List Held) : Nat := trail.countP (·.1.isFunction)

def resolving (trail : List Held) : List String := (trail.filter (!·.1.isFunction)).map (·.1.name)

/-- More functions are open than may be, or a name is being resolved twice. -/
def Recurs (limit : Nat) (trail : List Held) : Prop :=
  ¬ (resolving trail).Nodup ∨ limit < calls trail

section Counting
variable {x : Held} {trail : List Held}

theorem calls_function (h : x.1.isFunction = true) : calls (x :: trail) = calls trail + 1 := by
  simp [calls, h]

theorem calls_other (h : x.1.isFunction = false) : calls (x :: trail) = calls trail := by
  simp [calls, h]

theorem resolving_function (h : x.1.isFunction = true) :
    resolving (x :: trail) = resolving trail := by
  simp [resolving, h]

theorem resolving_other (h : x.1.isFunction = false) :
    resolving (x :: trail) = x.1.name :: resolving trail := by
  simp [resolving, h]

theorem length_eq (trail : List Held) : trail.length = calls trail + (resolving trail).length := by
  induction trail with
  | nil => rfl
  | cons x trail ih =>
    cases h : x.1.isFunction with
    | true =>
      rw [calls_function h, resolving_function h, List.length_cons]
      omega
    | false =>
      rw [calls_other h, resolving_other h, List.length_cons, List.length_cons]
      omega

theorem exists_of_mem_resolving {n : String} (h : n ∈ resolving trail) :
    ∃ x ∈ trail, x.1.isFunction = false ∧ x.1.name = n := by
  simpa [resolving, and_assoc] using h

/-- The names that are being resolved are defined in the scope, so there is no room for more. -/
theorem recurs_of_length {scope : Scope} {limit : Nat} (h : ∀ x ∈ trail, scope.Holds x)
    (hlong : limit + scope.size < trail.length) : Recurs limit trail := by
  by_contra hnot
  obtain ⟨hnodup, hcalls⟩ := not_or.1 hnot
  have hsubset : resolving trail ⊆ scope.names := by
    intro n hn
    obtain ⟨x, hx, -, rfl⟩ := exists_of_mem_resolving hn
    exact (h x hx).mem_names
  have hle := (List.subperm_of_subset (not_not.1 hnodup) hsubset).length_le
  rw [Scope.length_names] at hle
  have hlength := length_eq trail
  omega

end Counting

section Leading
variable {start : Held → Prop} {x y : Held} {trail : List Held}

theorem mono {start' : Held → Prop} (h : Trail start trail) (himp : ∀ x, start x → start' x) :
    Trail start' trail := by
  induction h with
  | first hx => exact .first (himp _ hx)
  | next _ hleads ih => exact .next ih hleads

theorem holds {scope : Scope} (hs : scope.Complete) (hstart : ∀ x, start x → scope.Holds x)
    (h : Trail start trail) : ∀ x ∈ trail, scope.Holds x := by
  induction h with
  | first hx => exact List.forall_mem_singleton.2 (hstart _ hx)
  | next _ hleads ih =>
    obtain ⟨⟨n, -, hrefers⟩, -⟩ := hleads
    exact List.forall_mem_cons.2 ⟨hs.holds (ih _ List.mem_cons_self).1 hrefers, ih⟩

theorem leads_head (h : Trail start (y :: trail)) : ∀ x ∈ trail, TransGen Held.Leads x y := by
  generalize hall : y :: trail = all at h
  induction h generalizing y trail with
  | first _ =>
    cases hall
    exact fun _ hx => absurd hx List.not_mem_nil
  | next _ hleads ih =>
    cases hall
    exact List.forall_mem_cons.2 ⟨.single hleads, fun x hx => (ih rfl x hx).tail hleads⟩

theorem exists_start (h : Trail start trail) :
    ∀ x ∈ trail, ∃ root, start root ∧ ReflTransGen Held.Leads root x := by
  induction h with
  | first hx => exact List.forall_mem_singleton.2 ⟨_, hx, .refl⟩
  | next _ hleads ih =>
    obtain ⟨root, hroot, hreach⟩ := ih _ List.mem_cons_self
    exact List.forall_mem_cons.2 ⟨⟨root, hroot, hreach.tail hleads⟩, ih⟩

theorem exists_repeated (h : Trail start trail) (hdup : ¬ (resolving trail).Nodup) :
    ∃ x ∈ trail, ∃ y ∈ trail, x.1.isFunction = false ∧ y.1.isFunction = false ∧
      x.1.name = y.1.name ∧ TransGen Held.Leads x y := by
  induction h with
  | @first x _ =>
    refine absurd ?_ hdup
    cases hx : x.1.isFunction with
    | true => simp [resolving, hx]
    | false => simp [resolving, hx]
  | @next x y trail hshorter hleads ih =>
    by_cases hinside : (resolving (x :: trail)).Nodup
    · -- The innermost declaration is the one that has made the repetition.
      cases hy : y.1.isFunction with
      | true =>
        rw [resolving_function hy] at hdup
        exact absurd hinside hdup
      | false =>
        rw [resolving_other hy, List.nodup_cons, not_and_or, not_not] at hdup
        obtain ⟨a, ha, hfunction, hname⟩ :=
          exists_of_mem_resolving (hdup.resolve_right (not_not.2 hinside))
        exact ⟨a, List.mem_cons_of_mem y ha, y, List.mem_cons_self, hfunction, hy, hname,
          (hshorter.next hleads).leads_head a ha⟩
    · obtain ⟨a, ha, b, hb, hpair⟩ := ih hinside
      exact ⟨a, List.mem_cons_of_mem y ha, b, List.mem_cons_of_mem y hb, hpair⟩

end Leading

end Trail
end TypedFlow
