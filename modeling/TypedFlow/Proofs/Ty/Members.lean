import TypedFlow.Proofs.Dictionary
import TypedFlow.Proofs.NumericSet.Operations
import TypedFlow.Ty.Basic

/-!
# Values of types

A type stands for a set of values. `Mem` says which values it has and `Proper` which types the
constructors build; a proper type other than `never` has a value.
-/
namespace TypedFlow

/-- A value. A record has a value in some slots; a variant carries a payload or none. -/
inductive Value
  | number (x : ℝ)
  | text (content : String)
  | record (name : String) (slots : String → Option Value)
  | variant (enum : String) (name : String) (payload : Option Value)

namespace Ty

/-- The values of a type. A struct has the records of its name with exactly its fields. An enum
has the variants it lists, without a payload type with every payload or none. -/
inductive Mem : Value → Ty → Prop
  | any (v : Value) : Mem v .any
  | number (x : ℝ) : Mem (.number x) .number
  | string (content : String) : Mem (.text content) .string
  | numeric {set : NumericSet} {x : ℝ} (h : set.Mem x) : Mem (.number x) (.numeric set)
  | stringLiteral (content : String) : Mem (.text content) (.stringLiteral content)
  | struct {name : String} {fields : List (String × Ty)} {slots : String → Option Value}
      (shape : ∀ field, (slots field).isSome = (Entries.get? fields field).isSome)
      (typed : ∀ field t v, Entries.get? fields field = some t → slots field = some v → Mem v t) :
      Mem (.record name slots) (.struct name fields)
  | bare {name variant : String} {variants : List (String × Option Ty)} {payload : Option Value}
      (listed : Entries.get? variants variant = some none) :
      Mem (.variant name variant payload) (.enum name variants)
  | carrying {name variant : String} {variants : List (String × Option Ty)} {t : Ty} {v : Value}
      (listed : Entries.get? variants variant = some (some t)) (payload : Mem v t) :
      Mem (.variant name variant (some v)) (.enum name variants)
  | oneOf {members : List Ty} {t : Ty} {v : Value} (member : t ∈ members) (h : Mem v t) :
      Mem v (.oneOf members)

section Values
variable {v : Value}

theorem not_mem_never : ¬ Mem v .never := by
  intro h
  cases h

theorem mem_numeric_iff {set : NumericSet} :
    Mem v (.numeric set) ↔ ∃ x, v = .number x ∧ set.Mem x := by
  constructor
  · intro h
    cases h with
    | numeric hx => exact ⟨_, rfl, hx⟩
  · intro hh
    obtain ⟨x, rfl, hx⟩ := hh
    exact .numeric hx

end Values

/-- A type as the constructors build it: fields and variants are listed once, and nothing inside
it is empty. -/
inductive Proper : Ty → Prop
  | any : Proper .any
  | never : Proper .never
  | number : Proper .number
  | string : Proper .string
  | stringLiteral (content : String) : Proper (.stringLiteral content)
  | numeric {set : NumericSet} (sound : set.Sound) (nonempty : set.isEmpty = false) :
      Proper (.numeric set)
  | struct {name : String} {fields : List (String × Ty)} (distinct : (Entries.names fields).Nodup)
      (proper : ∀ entry ∈ fields, Proper entry.2)
      (inhabited : ∀ entry ∈ fields, entry.2.isNever = false) : Proper (.struct name fields)
  | enum {name : String} {variants : List (String × Option Ty)} (nonempty : variants ≠ [])
      (ascending : Entries.Ascending variants)
      (proper : ∀ entry ∈ variants, ∀ t, entry.2 = some t → Proper t)
      (inhabited : ∀ entry ∈ variants, ∀ t, entry.2 = some t → t.isNever = false) :
      Proper (.enum name variants)
  | oneOf {members : List Ty} (nonempty : members ≠ []) (proper : ∀ t ∈ members, Proper t)
      (inhabited : ∀ t ∈ members, t.isNever = false) : Proper (.oneOf members)

/-- Not a union. -/
def Plain (t : Ty) : Prop := ∀ members, t ≠ .oneOf members

theorem exists_eq_oneOf {t : Ty} (h : ¬ t.Plain) : ∃ members, t = .oneOf members := by
  simpa [Plain] using h

section Sizes
variable {name : String} {t : Ty}

theorem sizeOf_lt_struct {fields : List (String × Ty)} {e : String × Ty} (he : e ∈ fields) :
    sizeOf e.2 < sizeOf (Ty.struct name fields) := by
  obtain ⟨field, t⟩ := e
  have hlt := List.sizeOf_lt_of_mem he
  simp only [struct.sizeOf_spec, Prod.mk.sizeOf_spec] at hlt ⊢
  omega

theorem sizeOf_lt_enum {variants : List (String × Option Ty)} {e : String × Option Ty}
    (he : e ∈ variants) (ht : e.2 = some t) : sizeOf t < sizeOf (Ty.enum name variants) := by
  obtain ⟨variant, payload⟩ := e
  obtain rfl : payload = some t := ht
  have hlt := List.sizeOf_lt_of_mem he
  simp only [enum.sizeOf_spec, Prod.mk.sizeOf_spec, Option.some.sizeOf_spec] at hlt ⊢
  omega

theorem sizeOf_lt_oneOf {members : List Ty} (ht : t ∈ members) :
    sizeOf t < sizeOf (Ty.oneOf members) := by
  have hlt := List.sizeOf_lt_of_mem ht
  simp only [oneOf.sizeOf_spec]
  omega

end Sizes

theorem isNever_iff {t : Ty} : t.isNever = true ↔ t = .never := by
  cases t <;> simp [isNever]

theorem isNever_eq_false {t : Ty} (h : t ≠ .never) : t.isNever = false := by
  rw [← Bool.not_eq_true, isNever_iff]
  exact h

theorem Proper.field {name field : String} {fields : List (String × Ty)} {t : Ty}
    (h : (Ty.struct name fields).Proper) (ht : Entries.get? fields field = some t) : t.Proper := by
  cases h with
  | struct _ proper _ => exact proper _ (Entries.mem_of_get? ht)

theorem Proper.payload_spec {name variant : String} {variants : List (String × Option Ty)} {t : Ty}
    (h : (Ty.enum name variants).Proper) (ht : Entries.get? variants variant = some (some t)) :
    t.Proper ∧ t.isNever = false := by
  cases h with
  | enum _ _ proper inhabited =>
    have hmem := Entries.mem_of_get? ht
    exact ⟨proper _ hmem t rfl, inhabited _ hmem t rfl⟩

theorem Proper.nodup_fields {name : String} {fields : List (String × Ty)}
    (h : (Ty.struct name fields).Proper) : (Entries.names fields).Nodup := by
  cases h with
  | struct distinct _ _ => exact distinct

theorem Proper.nodup_variants {name : String} {variants : List (String × Option Ty)}
    (h : (Ty.enum name variants).Proper) : (Entries.names variants).Nodup := by
  cases h with
  | enum _ ascending _ _ => exact ascending.nodup

theorem Proper.member {members : List Ty} {t : Ty} (h : (Ty.oneOf members).Proper)
    (ht : t ∈ members) : t.Proper := by
  cases h with
  | oneOf _ proper _ => exact proper t ht

/-- A proper type other than `never` has a value. -/
theorem Proper.exists_mem {t : Ty} (h : Proper t) (hne : t.isNever = false) : ∃ v, Mem v t := by
  induction h with
  | any => exact ⟨.number 0, .any _⟩
  | never => cases hne
  | number => exact ⟨_, .number 0⟩
  | string => exact ⟨_, .string ""⟩
  | stringLiteral content => exact ⟨_, .stringLiteral content⟩
  | numeric sound nonempty =>
    obtain ⟨x, hx⟩ := NumericSet.exists_mem sound nonempty
    exact ⟨_, .numeric hx⟩
  | @struct name fields _ _ inhabited ih =>
    have hslot : ∀ field, ∃ slot : Option Value,
        slot.isSome = (Entries.get? fields field).isSome ∧
          ∀ t w, Entries.get? fields field = some t → slot = some w → Mem w t := by
      intro field
      cases hget : Entries.get? fields field with
      | none => exact ⟨none, rfl, fun t w h => by cases h⟩
      | some t =>
        have hmem := Entries.mem_of_get? hget
        obtain ⟨v, hv⟩ := ih _ hmem (inhabited _ hmem)
        refine ⟨some v, rfl, fun t' w ht hw => ?_⟩
        cases ht
        cases hw
        exact hv
    choose slots hshape htyped using hslot
    exact ⟨.record name slots, .struct hshape htyped⟩
  | @enum name variants nonempty ascending _ inhabited ih =>
    obtain ⟨⟨variant, listed⟩, hmem⟩ := List.exists_mem_of_ne_nil variants nonempty
    have hget := Entries.get?_of_mem ascending.nodup hmem
    cases listed with
    | none => exact ⟨.variant name variant none, .bare hget⟩
    | some t =>
      obtain ⟨v, hv⟩ := ih _ hmem t rfl (inhabited _ hmem t rfl)
      exact ⟨_, .carrying hget hv⟩
  | oneOf nonempty _ inhabited ih =>
    obtain ⟨t, ht⟩ := List.exists_mem_of_ne_nil _ nonempty
    obtain ⟨v, hv⟩ := ih t ht (inhabited t ht)
    exact ⟨v, .oneOf ht hv⟩

end Ty
end TypedFlow
