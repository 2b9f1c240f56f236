import TypedFlow.Proofs.Ty.Probe
import TypedFlow.Ty.Subtype

/-!
# Subtypes have fewer probes

The tests on lists of members, fields and variants are turned into statements about each of their
entries; soundness is then an induction on the size of both types.
-/
namespace TypedFlow.Ty

theorem allWithin_iff {types : List Ty} {b : Ty} :
    allWithin types b = true ↔ ∀ t ∈ types, isSubtype t b = true := by
  induction types with
  | nil => simp [allWithin]
  | cons t types ih => simp [allWithin, ih]

theorem withinSome_iff {a : Ty} {types : List Ty} :
    withinSome a types = true ↔ ∃ t ∈ types, isSubtype a t = true := by
  induction types with
  | nil => simp [withinSome]
  | cons t types ih => simp [withinSome, ih]

theorem fieldsWithin_iff {fields others : List (String × Ty)} : fieldsWithin fields others = true ↔
    ∀ entry ∈ fields, ∃ other, Entries.get? others entry.1 = some other ∧
      isSubtype entry.2 other = true := by
  induction fields with
  | nil => simp [fieldsWithin]
  | cons entry fields ih =>
    obtain ⟨name, t⟩ := entry
    rw [fieldsWithin, Bool.and_eq_true, ih]
    cases hget : Entries.get? others name with
    | none => simp [hget]
    | some other => simp [hget]

theorem sameShape_of_names {fields others : List (String × Ty)}
    (h : Entries.names fields = Entries.names others) : sameShape fields others = true := by
  have hlength : fields.length = others.length := by
    simpa [Entries.names] using congrArg List.length h
  simp only [sameShape, hlength, beq_self_eq_true, Bool.true_and, List.all_eq_true]
  intro e he
  rw [Entries.has_eq_isSome, Entries.get?_isSome_iff, ← h]
  exact List.mem_map_of_mem he

/-- What a listed payload type must be for a variant of the other list to be covered. -/
def payloadWithin : Option Ty → Option Ty → Bool
  | _, none => true
  | some t, some other => isSubtype t other
  | none, some _ => false

theorem variantsWithin_iff {variants others : List (String × Option Ty)} :
    variantsWithin variants others = true ↔
      ∀ entry ∈ variants, ∃ other, Entries.get? others entry.1 = some other ∧
        payloadWithin entry.2 other = true := by
  induction variants with
  | nil => simp [variantsWithin]
  | cons entry variants ih =>
    obtain ⟨name, payload⟩ := entry
    rw [variantsWithin, Bool.and_eq_true, ih]
    cases hget : Entries.get? others name with
    | none => simp [hget]
    | some other =>
      cases other with
      | none => simp [hget, payloadWithin]
      | some other =>
        cases payload with
        | none => simp [hget, payloadWithin]
        | some t => simp [hget, payloadWithin]

/-- How a type comes to be a subtype of another, by the kinds of the two. -/
inductive Covered : Ty → Ty → Prop
  | never (b : Ty) : Covered .never b
  | any (a : Ty) : Covered a .any
  | union {members : List Ty} {b : Ty} (notNever : b ≠ .never) (notAny : b ≠ .any)
      (within : ∀ t ∈ members, isSubtype t b = true) : Covered (.oneOf members) b
  | member {a t : Ty} {members : List Ty} (notNever : a ≠ .never) (notAny : a ≠ .any)
      (plain : a.Plain) (listed : t ∈ members) (within : isSubtype a t = true) :
      Covered a (.oneOf members)
  | number : Covered .number .number
  | numericNumber (set : NumericSet) : Covered (.numeric set) .number
  | numeric {set other : NumericSet} (within : other.contains set = true) :
      Covered (.numeric set) (.numeric other)
  | string : Covered .string .string
  | literalString (content : String) : Covered (.stringLiteral content) .string
  | literal (content : String) : Covered (.stringLiteral content) (.stringLiteral content)
  | struct {name : String} {fields others : List (String × Ty)}
      (shape : sameShape fields others = true)
      (within : ∀ e ∈ fields, ∃ other, Entries.get? others e.1 = some other ∧
        isSubtype e.2 other = true) : Covered (.struct name fields) (.struct name others)
  | enum {name : String} {variants others : List (String × Option Ty)}
      (within : ∀ e ∈ variants, ∃ other, Entries.get? others e.1 = some other ∧
        payloadWithin e.2 other = true) : Covered (.enum name variants) (.enum name others)

theorem covered_of_isSubtype {a b : Ty} (h : isSubtype a b = true) : Covered a b := by
  unfold isSubtype at h
  split at h
  · exact .never b
  · exact .any a
  · cases h
  · cases h
  · rename_i hany hnever
    exact .union hnever hany (allWithin_iff.1 h)
  · rename_i hnever hany hplain
    obtain ⟨t, ht, hsub⟩ := withinSome_iff.1 h
    exact .member hnever hany hplain ht hsub
  · exact .number
  · exact .numericNumber _
  · exact .numeric h
  · exact .string
  · exact .literalString _
  · obtain rfl := beq_iff_eq.1 h
    exact .literal _
  · rw [Bool.and_eq_true, Bool.and_eq_true, beq_iff_eq, fieldsWithin_iff] at h
    obtain ⟨⟨rfl, shape⟩, within⟩ := h
    exact .struct shape within
  · rw [Bool.and_eq_true, beq_iff_eq, variantsWithin_iff] at h
    obtain ⟨rfl, within⟩ := h
    exact .enum within
  · cases h

section Tests
variable {a b : Ty} {name name' : String}

theorem never_isSubtype : isSubtype .never b = true := by
  simp [isSubtype]

theorem isSubtype_any : isSubtype a .any = true := by
  cases a <;> simp [isSubtype]

theorem isSubtype_never_iff : isSubtype a .never = true ↔ a = .never := by
  cases a with
  | never => simp [isSubtype]
  | _ => simp [isSubtype]

theorem any_isSubtype_iff : isSubtype .any a = true ↔ a = .any := by
  cases a with
  | any => simp [isSubtype]
  | _ => simp [isSubtype]

theorem oneOf_isSubtype_iff {members : List Ty} (hb : b ≠ .never) :
    isSubtype (.oneOf members) b = true ↔ ∀ t ∈ members, isSubtype t b = true := by
  by_cases hany : b = .any
  · subst hany
    exact iff_of_true isSubtype_any fun t _ => isSubtype_any
  · rw [isSubtype, allWithin_iff]
    exacts [hany, hb]

theorem isSubtype_struct_iff {fields others : List (String × Ty)} :
    isSubtype (.struct name fields) (.struct name' others) = true ↔
      name = name' ∧ sameShape fields others = true ∧
        ∀ e ∈ fields, ∃ other, Entries.get? others e.1 = some other ∧
          isSubtype e.2 other = true := by
  rw [isSubtype, Bool.and_eq_true, Bool.and_eq_true, beq_iff_eq, fieldsWithin_iff, and_assoc]

theorem isSubtype_enum_iff {variants listed : List (String × Option Ty)} :
    isSubtype (.enum name variants) (.enum name' listed) = true ↔
      name = name' ∧ ∀ e ∈ variants, ∃ other, Entries.get? listed e.1 = some other ∧
        payloadWithin e.2 other = true := by
  rw [isSubtype, Bool.and_eq_true, beq_iff_eq, variantsWithin_iff]

end Tests

theorem get?_isSome_of_sameShape {fields others : List (String × Ty)}
    (hd : (Entries.names fields).Nodup) (h : sameShape fields others = true) (name : String) :
    (Entries.get? fields name).isSome = (Entries.get? others name).isSome := by
  simp only [sameShape] at h
  rw [Bool.and_eq_true, beq_iff_eq, List.all_eq_true] at h
  obtain ⟨hlength, hall⟩ := h
  have hsubset : Entries.names fields ⊆ Entries.names others := by
    intro field hfield
    obtain ⟨entry, hentry, rfl⟩ := List.mem_map.1 hfield
    have hhas : Entries.has others entry.1 = true := hall entry hentry
    rwa [Entries.has_eq_isSome, Entries.get?_isSome_iff] at hhas
  have hperm : (Entries.names fields).Perm (Entries.names others) := by
    apply (List.subperm_of_subset hd hsubset).perm_of_length_le
    simp [Entries.names, hlength]
  rw [Bool.eq_iff_iff, Entries.get?_isSome_iff, Entries.get?_isSome_iff]
  exact hperm.mem_iff

theorem has_struct_mono {name : String} {fields others : List (String × Ty)} {v : Probe}
    (shape : ∀ field, (Entries.get? fields field).isSome = (Entries.get? others field).isSome)
    (h : ∀ field t t', Entries.get? fields field = some t → Entries.get? others field = some t' →
      ∀ w, Has w t → Has w t')
    (hv : Has v (.struct name fields)) : Has v (.struct name others) := by
  obtain ⟨slots, rfl, hshape, typed⟩ := has_struct_iff.1 hv
  refine .struct (fun field => (hshape field).trans (Option.isSome_eq_isSome.1 (shape field)))
    fun field t' w ht' hw => ?_
  have hsome : (Entries.get? fields field).isSome = true := by
    rw [shape, ht']
    rfl
  obtain ⟨t, ht⟩ := Option.isSome_iff_exists.1 hsome
  exact h field t t' ht ht' w (typed field t w ht hw)

theorem payloadHas_of_within {payload : Option Probe} {listed other : Option Ty}
    (hsub : ∀ t t', listed = some t → other = some t' → isSubtype t t' = true →
      ∀ v, Has v t → Has v t')
    (h : payloadWithin listed other = true) (hv : PayloadHas payload listed) :
    PayloadHas payload other := by
  cases other with
  | none => exact payloadHas_none payload
  | some t' =>
    cases listed with
    | none => cases h
    | some t =>
      obtain ⟨w, rfl, hw⟩ := payloadHas_some_iff.1 hv
      exact payloadHas_some_iff.2 ⟨w, rfl, hsub t t' rfl rfl h w hw⟩

theorem has_struct_of_within {name : String} {fields others : List (String × Ty)} {v : Probe}
    (hd : (Entries.names fields).Nodup) (shape : sameShape fields others = true)
    (within : ∀ e ∈ fields, ∃ other, Entries.get? others e.1 = some other ∧
      isSubtype e.2 other = true)
    (ih : ∀ e ∈ fields, ∀ f ∈ others, isSubtype e.2 f.2 = true → ∀ w, Has w e.2 → Has w f.2)
    (hv : Has v (.struct name fields)) : Has v (.struct name others) := by
  refine has_struct_mono (get?_isSome_of_sameShape hd shape) (fun field t t' ht ht' => ?_) hv
  have hmem := Entries.mem_of_get? ht
  obtain ⟨other, hother, hsub⟩ := within _ hmem
  obtain rfl := Option.some.inj (hother.symm.trans ht')
  exact ih _ hmem _ (Entries.mem_of_get? ht') hsub

theorem has_enum_of_within {name : String} {variants others : List (String × Option Ty)} {v : Probe}
    (within : ∀ e ∈ variants, ∃ other, Entries.get? others e.1 = some other ∧
      payloadWithin e.2 other = true)
    (ih : ∀ e ∈ variants, ∀ f ∈ others, ∀ t t', e.2 = some t → f.2 = some t' →
      isSubtype t t' = true → ∀ w, Has w t → Has w t')
    (hv : Has v (.enum name variants)) : Has v (.enum name others) := by
  obtain ⟨variant, payload, rfl, listed, hlisted, hpayload⟩ := has_enum_iff.1 hv
  have hmem := Entries.mem_of_get? hlisted
  obtain ⟨other, hother, hsub⟩ := within _ hmem
  exact has_enum_iff.2 ⟨variant, payload, rfl, other, hother,
    payloadHas_of_within (ih _ hmem _ (Entries.mem_of_get? hother)) hsub hpayload⟩

/-- Where the subtype test says yes, every probe of the left type is one of the right type. -/
theorem has_of_isSubtype {a b : Ty} (ha : a.Proper) (hb : b.Proper) (h : isSubtype a b = true)
    {v : Probe} (hv : Has v a) : Has v b := by
  -- On the size of both types: a member of either side is compared with the whole other side.
  induction hn : sizeOf a + sizeOf b using Nat.strong_induction_on generalizing a b v with
  | _ n ih =>
    subst hn
    cases covered_of_isSubtype h with
    | never => exact absurd hv not_has_never
    | any => exact has_any
    | union _ _ within =>
      obtain ⟨t, ht, hv⟩ := has_oneOf_iff.1 hv
      have hlt := Nat.add_lt_add_right (sizeOf_lt_oneOf ht) (sizeOf b)
      exact ih _ hlt (ha.member ht) hb (within t ht) hv rfl
    | member _ _ _ ht within =>
      have hlt := Nat.add_lt_add_left (sizeOf_lt_oneOf ht) (sizeOf a)
      exact has_oneOf_iff.2 ⟨_, ht, ih _ hlt ha (hb.member ht) within hv rfl⟩
    | number | string | literal => exact hv
    | numericNumber => exact has_number_of_numeric hv
    | literalString => exact has_string_of_literal hv
    | numeric within =>
      cases ha with
      | numeric hs _ =>
        cases hb with
        | numeric ht _ =>
          obtain ⟨x, rfl, hx⟩ := has_numeric_iff.1 hv
          exact .numeric (NumericSet.mem_of_contains ht hs within hx)
    | struct shape within =>
      cases ha with
      | struct distinct proper _ =>
        cases hb with
        | struct _ proper' _ =>
          refine has_struct_of_within distinct shape within (fun e he f hf hsub w hw => ?_) hv
          exact ih _ (Nat.add_lt_add (sizeOf_lt_struct he) (sizeOf_lt_struct hf)) (proper e he)
            (proper' f hf) hsub hw rfl
    | enum within =>
      cases ha with
      | enum _ _ proper _ =>
        cases hb with
        | enum _ _ proper' _ =>
          refine has_enum_of_within within (fun e he f hf t t' ht ht' hsub w hw => ?_) hv
          exact ih _ (Nat.add_lt_add (sizeOf_lt_enum he ht) (sizeOf_lt_enum hf ht'))
            (proper e he t ht) (proper' f hf t' ht') hsub hw rfl

end TypedFlow.Ty
