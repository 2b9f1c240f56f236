import TypedFlow.Proofs.Ty.Members

/-!
# Probes of types

A probe is like a value, except that a record holds in each slot any finite number of probes that
the type of the field must have all at once, and that one probe is had by `any` alone. So a struct
that a union of structs covers only between its members has a probe that the union has not, as the
subtype test asks for one member that covers it alone. What holds of probes holds of values, each
of which is a probe with one probe in every slot.
-/
namespace TypedFlow

inductive Probe
  | beyond
  | number (x : ℝ)
  | text (content : String)
  | record (name : String) (slots : String → List Probe)
  | variant (enum : String) (name : String) (payload : Option Probe)

namespace Ty

/-- The probes of a type. A struct has the records of its name with something in exactly the slots
of its fields. -/
inductive Has : Probe → Ty → Prop
  | any (v : Probe) : Has v .any
  | number (x : ℝ) : Has (.number x) .number
  | string (content : String) : Has (.text content) .string
  | numeric {set : NumericSet} {x : ℝ} (h : set.Mem x) : Has (.number x) (.numeric set)
  | stringLiteral (content : String) : Has (.text content) (.stringLiteral content)
  | struct {name : String} {fields : List (String × Ty)} {slots : String → List Probe}
      (shape : ∀ field, slots field = [] ↔ Entries.get? fields field = none)
      (typed : ∀ field t v, Entries.get? fields field = some t → v ∈ slots field → Has v t) :
      Has (.record name slots) (.struct name fields)
  | bare {name variant : String} {variants : List (String × Option Ty)} {payload : Option Probe}
      (listed : Entries.get? variants variant = some none) :
      Has (.variant name variant payload) (.enum name variants)
  | carrying {name variant : String} {variants : List (String × Option Ty)} {t : Ty} {v : Probe}
      (listed : Entries.get? variants variant = some (some t)) (payload : Has v t) :
      Has (.variant name variant (some v)) (.enum name variants)
  | oneOf {members : List Ty} {t : Ty} {v : Probe} (member : t ∈ members) (h : Has v t) :
      Has v (.oneOf members)

section Probes
variable {v : Probe}

theorem not_has_never : ¬ Has v .never := by
  intro h
  cases h

theorem has_any : Has v .any := .any v

theorem has_number_iff : Has v .number ↔ ∃ x, v = .number x := by
  constructor
  · intro h
    cases h with
    | number x => exact ⟨x, rfl⟩
  · intro hh
    obtain ⟨x, rfl⟩ := hh
    exact .number x

theorem has_numeric_iff {set : NumericSet} :
    Has v (.numeric set) ↔ ∃ x, v = .number x ∧ set.Mem x := by
  constructor
  · intro h
    cases h with
    | numeric hx => exact ⟨_, rfl, hx⟩
  · intro hh
    obtain ⟨x, rfl, hx⟩ := hh
    exact .numeric hx

theorem has_stringLiteral_iff {content : String} :
    Has v (.stringLiteral content) ↔ v = .text content := by
  constructor
  · intro h
    cases h with
    | stringLiteral => rfl
  · rintro rfl
    exact .stringLiteral content

theorem has_number_of_numeric {set : NumericSet} (h : Has v (.numeric set)) : Has v .number := by
  obtain ⟨x, rfl, -⟩ := has_numeric_iff.1 h
  exact .number x

theorem has_string_of_literal {content : String} (h : Has v (.stringLiteral content)) :
    Has v .string := by
  rw [has_stringLiteral_iff.1 h]
  exact .string content

theorem has_oneOf_iff {members : List Ty} : Has v (.oneOf members) ↔ ∃ t ∈ members, Has v t := by
  constructor
  · intro h
    cases h with
    | oneOf member h => exact ⟨_, member, h⟩
  · intro hh
    obtain ⟨t, member, h⟩ := hh
    exact .oneOf member h

theorem has_struct_iff {name : String} {fields : List (String × Ty)} :
    Has v (.struct name fields) ↔ ∃ slots, v = .record name slots ∧
      (∀ field, slots field = [] ↔ Entries.get? fields field = none) ∧
        ∀ field t w, Entries.get? fields field = some t → w ∈ slots field → Has w t := by
  constructor
  · intro h
    cases h with
    | struct shape typed => exact ⟨_, rfl, shape, typed⟩
  · intro hh
    obtain ⟨slots, rfl, shape, typed⟩ := hh
    exact .struct shape typed

/-- The payloads that a listed variant admits. -/
def PayloadHas (payload : Option Probe) (listed : Option Ty) : Prop :=
  ∀ t, listed = some t → ∃ w, payload = some w ∧ Has w t

theorem payloadHas_none (payload : Option Probe) : PayloadHas payload none := by
  intro t h
  cases h

theorem payloadHas_some_iff {payload : Option Probe} {t : Ty} :
    PayloadHas payload (some t) ↔ ∃ w, payload = some w ∧ Has w t := by
  simp [PayloadHas]

theorem has_enum_iff {name : String} {variants : List (String × Option Ty)} :
    Has v (.enum name variants) ↔ ∃ variant payload, v = .variant name variant payload ∧
      ∃ listed, Entries.get? variants variant = some listed ∧ PayloadHas payload listed := by
  constructor
  · intro h
    cases h with
    | bare listed => exact ⟨_, _, rfl, none, listed, payloadHas_none _⟩
    | carrying listed payload =>
      exact ⟨_, _, rfl, _, listed, payloadHas_some_iff.2 ⟨_, rfl, payload⟩⟩
  · intro hh
    obtain ⟨variant, payload, rfl, listed, hlisted, hpayload⟩ := hh
    cases listed with
    | none => exact .bare hlisted
    | some t =>
      obtain ⟨w, rfl, hw⟩ := payloadHas_some_iff.1 hpayload
      exact .carrying hlisted hw

theorem isNever_of_has {t : Ty} (h : Has v t) : t.isNever = false := by
  rw [← Bool.not_eq_true, isNever_iff]
  rintro rfl
  exact not_has_never h

end Probes

section Kinds
variable {a b : Ty} {v : Probe}

/-- Two types of one kind, neither of them `any`, `never` or a union. -/
inductive Akin : Ty → Ty → Prop
  | number : Akin .number .number
  | numberNumeric (set : NumericSet) : Akin .number (.numeric set)
  | numericNumber (set : NumericSet) : Akin (.numeric set) .number
  | numeric (set other : NumericSet) : Akin (.numeric set) (.numeric other)
  | string : Akin .string .string
  | stringLiteral (content : String) : Akin .string (.stringLiteral content)
  | literalString (content : String) : Akin (.stringLiteral content) .string
  | literal (content other : String) : Akin (.stringLiteral content) (.stringLiteral other)
  | struct (name name' : String) (fields others : List (String × Ty)) :
      Akin (.struct name fields) (.struct name' others)
  | enum (name name' : String) (variants others : List (String × Option Ty)) :
      Akin (.enum name variants) (.enum name' others)

/-- A probe tells the kind of every type that has it, `any` and unions apart. -/
theorem akin_of_has (hany : a ≠ .any) (ha : a.Plain) (hany' : b ≠ .any) (hb : b.Plain)
    (hv : Has v a) (hv' : Has v b) : Akin a b := by
  cases hv with
  | any => exact absurd rfl hany
  | oneOf => exact absurd rfl (ha _)
  | number =>
    cases hv' with
    | any => exact absurd rfl hany'
    | oneOf => exact absurd rfl (hb _)
    | number => exact .number
    | numeric => exact .numberNumeric _
  | numeric =>
    cases hv' with
    | any => exact absurd rfl hany'
    | oneOf => exact absurd rfl (hb _)
    | number => exact .numericNumber _
    | numeric => exact .numeric _ _
  | string =>
    cases hv' with
    | any => exact absurd rfl hany'
    | oneOf => exact absurd rfl (hb _)
    | string => exact .string
    | stringLiteral => exact .stringLiteral _
  | stringLiteral =>
    cases hv' with
    | any => exact absurd rfl hany'
    | oneOf => exact absurd rfl (hb _)
    | string => exact .literalString _
    | stringLiteral => exact .literal _ _
  | struct =>
    cases hv' with
    | any => exact absurd rfl hany'
    | oneOf => exact absurd rfl (hb _)
    | struct => exact .struct _ _ _ _
  | bare | carrying =>
    cases hv' with
    | any => exact absurd rfl hany'
    | oneOf => exact absurd rfl (hb _)
    | bare => exact .enum _ _ _ _
    | carrying => exact .enum _ _ _ _

end Kinds

theorem ofNumericSet_spec {set : NumericSet} (hs : set.Sound) : (ofNumericSet set).Proper ∧
    ∀ v, Has v (ofNumericSet set) ↔ Has v (.numeric set) := by
  simp only [ofNumericSet]
  by_cases hempty : set.isEmpty = true
  · rw [if_pos hempty]
    refine ⟨.never, fun v => ?_⟩
    have hnone : ¬ Has v (.numeric set) := by
      rw [has_numeric_iff]
      intro hh
      obtain ⟨x, -, hx⟩ := hh
      exact NumericSet.not_mem_of_isEmpty hempty hx
    simp [hnone, not_has_never]
  · rw [if_neg hempty]
    by_cases hall : set.isAllReals = true
    · rw [if_pos hall]
      refine ⟨.number, fun v => ?_⟩
      rw [has_number_iff, has_numeric_iff]
      simp [NumericSet.mem_of_isAllReals hs hall]
    · rw [if_neg hall]
      exact ⟨.numeric hs (by simpa using hempty), fun v => Iff.rfl⟩

end Ty

section Values

mutual

/-- The probe of a value. -/
def Value.probe : Value → Probe
  | .number x => .number x
  | .text content => .text content
  | .record name slots => .record name fun field => slotProbes (slots field)
  | .variant enum name payload => .variant enum name (payloadProbe payload)

def slotProbes : Option Value → List Probe
  | none => []
  | some v => [v.probe]

def payloadProbe : Option Value → Option Probe
  | none => none
  | some v => some v.probe

end

theorem slotProbes_eq_nil {slot : Option Value} : slotProbes slot = [] ↔ slot = none := by
  cases slot with
  | none => simp [slotProbes]
  | some v => simp [slotProbes]

theorem mem_slotProbes {slot : Option Value} {p : Probe} :
    p ∈ slotProbes slot ↔ ∃ v, slot = some v ∧ p = v.probe := by
  cases slot with
  | none => simp [slotProbes]
  | some v => simp [slotProbes]

namespace Ty

theorem has_probe {v : Value} {t : Ty} (h : Mem v t) : Has v.probe t := by
  induction h with
  | any v => exact .any _
  | number x => exact .number x
  | string content => exact .string content
  | numeric h => exact .numeric h
  | stringLiteral content => exact .stringLiteral content
  | @struct name fields slots shape _ ih =>
    refine .struct (fun field => ?_) fun field t w ht hw => ?_
    · rw [slotProbes_eq_nil]
      exact Option.isSome_eq_isSome.1 (shape field)
    · obtain ⟨v, hv, rfl⟩ := mem_slotProbes.1 hw
      exact ih field t v ht hv
  | bare listed => exact .bare listed
  | carrying listed _ ih => exact .carrying listed ih
  | oneOf member _ ih => exact .oneOf member ih

theorem mem_of_probe {v : Value} {t : Ty} (h : Has v.probe t) : Mem v t := by
  generalize hq : v.probe = q at h
  induction h generalizing v with
  | any q => exact .any v
  | number x =>
    cases v <;> simp only [Value.probe, reduceCtorEq] at hq
    exact .number _
  | string content =>
    cases v <;> simp only [Value.probe, reduceCtorEq] at hq
    exact .string _
  | numeric h =>
    cases v <;> simp only [Value.probe, reduceCtorEq, Probe.number.injEq] at hq
    exact .numeric (hq ▸ h)
  | stringLiteral content =>
    cases v <;> simp only [Value.probe, reduceCtorEq, Probe.text.injEq] at hq
    exact hq ▸ .stringLiteral content
  | struct shape typed ih =>
    cases v <;> simp only [Value.probe, reduceCtorEq, Probe.record.injEq] at hq
    rename_i name fields slots other values
    obtain ⟨rfl, rfl⟩ := hq
    refine .struct (fun field => ?_) fun field t w ht hw => ?_
    · have hshape := shape field
      rw [slotProbes_eq_nil] at hshape
      exact Option.isSome_eq_isSome.2 hshape
    · exact ih field t w.probe ht (mem_slotProbes.2 ⟨w, hw, rfl⟩) rfl
  | bare listed =>
    cases v <;> simp only [Value.probe, reduceCtorEq, Probe.variant.injEq] at hq
    obtain ⟨rfl, rfl, -⟩ := hq
    exact .bare listed
  | carrying listed _ ih =>
    cases v <;> simp only [Value.probe, reduceCtorEq, Probe.variant.injEq] at hq
    rename_i enum name payload
    obtain ⟨rfl, rfl, hq⟩ := hq
    cases payload with
    | none => cases hq
    | some v => exact .carrying listed (ih (Option.some.inj hq))
  | oneOf member _ ih => exact .oneOf member (ih hq)

/-- A type has a value exactly if it has its probe. -/
theorem has_probe_iff {v : Value} {t : Ty} : Has v.probe t ↔ Mem v t := ⟨mem_of_probe, has_probe⟩

/-- A proper type other than `never` has a probe. -/
theorem Proper.exists_has {t : Ty} (h : t.Proper) (hne : t.isNever = false) : ∃ v, Has v t := by
  obtain ⟨v, hv⟩ := h.exists_mem hne
  exact ⟨v.probe, has_probe hv⟩

end Ty

end Values

end TypedFlow
