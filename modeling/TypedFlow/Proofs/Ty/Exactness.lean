import TypedFlow.Proofs.Ty.Reduced

/-!
# The subtype test is exact on probes

One normal type is found to be a subtype of another exactly if it has no probe that the other has
not. The point is a union on the right: its members have no kind in common, no finite number of
literals is every text, and records can be put together slot by slot, so that what the members
cover between them one of them covers alone.
-/
namespace TypedFlow.Ty

/-- A type as constructors, unions and intersections leave it. -/
structure Normal (t : Ty) : Prop where
  proper : t.Proper
  reduced : t.Reduced

theorem Normal.member {members : List Ty} {t : Ty} (h : (Ty.oneOf members).Normal)
    (ht : t ∈ members) : t.Normal ∧ t.Single := by
  obtain ⟨hproper, hreduced⟩ := h
  cases hproper with
  | oneOf _ proper _ =>
    cases hreduced with
    | oneOf reduced single _ => exact ⟨⟨proper t ht, reduced t ht⟩, single t ht⟩

theorem Normal.field {name field : String} {fields : List (String × Ty)} {t : Ty}
    (h : (Ty.struct name fields).Normal) (ht : Entries.get? fields field = some t) : t.Normal :=
  ⟨h.proper.field ht, h.reduced.field ht⟩

theorem Normal.payload {name variant : String} {variants : List (String × Option Ty)} {t : Ty}
    (h : (Ty.enum name variants).Normal) (ht : Entries.get? variants variant = some (some t)) :
    t.Normal :=
  ⟨(h.proper.payload_spec ht).1, h.reduced.payload ht⟩

section Kinds
variable {s t : Ty} {v : Probe}

theorem eq_any_of_beyond (ht : t.Reduced) (h : Has .beyond t) : t = .any := by
  cases h with
  | any => rfl
  | oneOf member h =>
    cases ht with
    | oneOf _ single _ =>
      cases h with
      | any => exact absurd rfl (single _ member).notAny
      | oneOf => exact absurd rfl ((single _ member).plain _)

/-- A probe of a type with a kind is had by single types of that kind only. -/
theorem kind_eq_of_has (hs : s.Single) (ht : t.Single) {k : Option String}
    (hk : s.kind? = some k) (hvs : Has v s) (hvt : Has v t) : t.kind? = some k := by
  have hany := ht.notAny
  have hplain := ht.plain
  cases hvs with
  | any => exact absurd rfl hs.notAny
  | oneOf => exact absurd rfl (hs.plain _)
  | string | stringLiteral | struct => cases hk
  | number | numeric =>
    cases hvt with
    | any => exact absurd rfl hany
    | oneOf => exact absurd rfl (hplain _)
    | number => exact hk
    | numeric => exact hk
  | bare | carrying =>
    cases hvt with
    | any => exact absurd rfl hany
    | oneOf => exact absurd rfl (hplain _)
    | bare => exact hk
    | carrying => exact hk

end Kinds

section Records
variable {name : String} {fields : List (String × Ty)} {slots others : String → List Probe}

theorem has_append_iff {n : String} {fields : List (String × Ty)}
    (h : ∀ field, slots field = [] ↔ others field = []) :
    Has (.record name fun field => slots field ++ others field) (.struct n fields) ↔
      Has (.record name slots) (.struct n fields) ∧
        Has (.record name others) (.struct n fields) := by
  constructor
  · intro hv
    cases hv with
    | struct shape typed =>
      simp only [List.append_eq_nil_iff, ← h, and_self] at shape
      exact ⟨.struct shape fun field t v ht hv => typed field t v ht (List.mem_append_left _ hv),
        .struct (fun field => (h field).symm.trans (shape field))
          fun field t v ht hv => typed field t v ht (List.mem_append_right _ hv)⟩
  · rintro ⟨hv, hv'⟩
    cases hv with
    | struct shape typed =>
      cases hv' with
      | struct _ typed' =>
        refine .struct (fun field => ?_) fun field t v ht hv => ?_
        · simp only [List.append_eq_nil_iff, ← h, and_self]
          exact shape field
        · exact (List.mem_append.1 hv).elim (typed field t v ht) (typed' field t v ht)

theorem has_insert {field : String} {t : Ty} {v : Probe}
    (hr : Has (.record name slots) (.struct name fields))
    (ht : Entries.get? fields field = some t) (hv : Has v t) :
    Has (.record name (Function.update slots field (v :: slots field))) (.struct name fields) := by
  cases hr with
  | struct shape typed =>
    refine .struct (fun other => ?_) fun other t' w ht' hw => ?_
    · by_cases hother : other = field
      · subst hother
        simp [ht]
      · rw [Function.update_of_ne hother]
        exact shape other
    · by_cases hother : other = field
      · subst hother
        rw [Function.update_self] at hw
        rcases List.mem_cons.1 hw with rfl | hw
        · rwa [← Option.some.inj (ht.symm.trans ht')]
        · exact typed other t' w ht' hw
      · rw [Function.update_of_ne hother] at hw
        exact typed other t' w ht' hw

theorem Single.struct_of_record {t : Ty} (ht : t.Single) (h : Has (.record name slots) t) :
    ∃ fields, t = .struct name fields := by
  cases h with
  | any => exact absurd rfl ht.notAny
  | oneOf => exact absurd rfl (ht.plain _)
  | struct => exact ⟨_, rfl⟩

/-- Records of a struct that are each outside one type are put together to one outside all. -/
theorem exists_outside (hp : (Ty.struct name fields).Proper) {members : List Ty}
    (hsingle : ∀ t ∈ members, t.Single)
    (h : ∀ t ∈ members, ∃ v, Has v (.struct name fields) ∧ ¬ Has v t) :
    ∃ v, Has v (.struct name fields) ∧ ∀ t ∈ members, ¬ Has v t := by
  induction members with
  | nil =>
    obtain ⟨v, hv⟩ := hp.exists_has rfl
    exact ⟨v, hv, by simp⟩
  | cons t members ih =>
    obtain ⟨v, hv, hrest⟩ := ih (fun s hs => hsingle s (List.mem_cons_of_mem t hs))
      fun s hs => h s (List.mem_cons_of_mem t hs)
    obtain ⟨w, hw, hfirst⟩ := h t List.mem_cons_self
    obtain ⟨slots, rfl, shape, -⟩ := has_struct_iff.1 hv
    obtain ⟨others, rfl, shape', -⟩ := has_struct_iff.1 hw
    have hshape : ∀ field, slots field = [] ↔ others field = [] :=
      fun field => (shape field).trans (shape' field).symm
    refine ⟨_, (has_append_iff hshape).2 ⟨hv, hw⟩, fun s hs hboth => ?_⟩
    obtain ⟨fields', rfl⟩ := (hsingle s hs).struct_of_record hboth
    obtain ⟨hslots, hothers⟩ := (has_append_iff hshape).1 hboth
    rcases List.mem_cons.1 hs with rfl | hs
    · exact hfirst hothers
    · exact hrest _ hs hslots

end Records

section Members
variable {a : Ty} {members : List Ty}

/-- All the probes of a type with a kind are in the one member of that kind. -/
theorem exists_member_of_kind (ha : a.Proper) (hs : a.Single) {k : Option String}
    (hkind : a.kind? = some k) (single : ∀ t ∈ members, t.Single)
    (apart : members.Pairwise Apart) (h : ∀ v, Has v a → ∃ t ∈ members, Has v t) :
    ∃ t ∈ members, ∀ v, Has v a → Has v t := by
  obtain ⟨v, hv⟩ := ha.exists_has (isNever_eq_false hs.notNever)
  obtain ⟨t, ht, hvt⟩ := h v hv
  refine ⟨t, ht, fun w hw => ?_⟩
  obtain ⟨s, hs', hws⟩ := h w hw
  have heq := eq_of_kind apart ht hs' (kind_eq_of_has hs (single t ht) hkind hv hvt)
    (kind_eq_of_has hs (single s hs') hkind hw hws)
  rwa [heq]

/-- Some text is none of the literals among the members. -/
theorem string_mem_of_has (single : ∀ t ∈ members, t.Single)
    (h : ∀ v, Has v .string → ∃ t ∈ members, Has v t) : .string ∈ members := by
  have hfinite : {content | Ty.stringLiteral content ∈ members}.Finite :=
    (List.finite_toSet members).preimage (fun _ _ _ _ => stringLiteral.inj)
  obtain ⟨content, hcontent⟩ := hfinite.exists_notMem
  obtain ⟨t, ht, hvt⟩ := h _ (.string content)
  cases hvt with
  | any => exact absurd rfl (single _ ht).notAny
  | oneOf => exact absurd rfl ((single _ ht).plain _)
  | stringLiteral => exact absurd ht hcontent
  | string => exact ht

/-- A single type within a union is within one of the members. -/
theorem exists_member (ha : a.Proper) (hs : a.Single) (hm : (Ty.oneOf members).Reduced)
    (h : ∀ v, Has v a → Has v (.oneOf members)) : ∃ t ∈ members, ∀ v, Has v a → Has v t := by
  cases hm with
  | oneOf reduced single apart =>
    have hmember : ∀ v, Has v a → ∃ t ∈ members, Has v t := fun v hv => has_oneOf_iff.1 (h v hv)
    cases a with
    | any => exact absurd rfl hs.notAny
    | never => exact absurd rfl hs.notNever
    | oneOf others => exact absurd rfl (hs.plain others)
    | number | numeric | enum => exact exists_member_of_kind ha hs rfl single apart hmember
    | string => exact ⟨.string, string_mem_of_has single hmember, fun v hv => hv⟩
    | stringLiteral content =>
      obtain ⟨t, ht, hvt⟩ := hmember _ (.stringLiteral content)
      refine ⟨t, ht, fun v hv => ?_⟩
      rwa [has_stringLiteral_iff.1 hv]
    | struct name fields =>
      by_contra hnone
      have houtside : ∀ t ∈ members, ∃ v, Has v (.struct name fields) ∧ ¬ Has v t := by
        intro t ht
        by_contra hall
        exact hnone ⟨t, ht, fun v hv => by_contra fun hvt => hall ⟨v, hv, hvt⟩⟩
      obtain ⟨v, hv, hout⟩ := exists_outside ha single houtside
      obtain ⟨t, ht, hvt⟩ := hmember v hv
      exact hout t ht hvt

end Members

/-- A numeric set in use is bounded somewhere, so it does not have all numbers. -/
theorem not_within_numeric {set : NumericSet} (hb : (Ty.numeric set).Normal) :
    ¬ ∀ v, Has v .number → Has v (.numeric set) := by
  intro h
  cases hb.reduced with
  | numeric canonical bounded =>
    have hall : set.isAllReals = true := by
      rw [NumericSet.isAllReals_iff canonical]
      intro x
      obtain ⟨y, heq, hy⟩ := has_numeric_iff.1 (h _ (.number x))
      cases heq
      exact hy
    rw [hall] at bounded
    cases bounded

theorem not_within_stringLiteral {content : String} :
    ¬ ∀ v, Has v .string → Has v (.stringLiteral content) := by
  intro h
  obtain ⟨other, hother⟩ := exists_ne content
  have heq := has_stringLiteral_iff.1 (h _ (.string other))
  cases heq
  exact absurd rfl hother

section Structural
variable {a b : String}

theorem struct_within {fields others : List (String × Ty)} (ha : (Ty.struct a fields).Normal)
    (hb : (Ty.struct b others).Normal) (h : ∀ v, Has v (.struct a fields) → Has v (.struct b others))
    (ih : ∀ field t t', Entries.get? fields field = some t → Entries.get? others field = some t' →
      (∀ v, Has v t → Has v t') → isSubtype t t' = true) :
    (a == b && sameShape fields others && fieldsWithin fields others) = true := by
  obtain ⟨v, hv⟩ := ha.proper.exists_has rfl
  cases ha.proper with
  | struct distinct _ _ =>
    cases hb.proper with
    | struct distinct' _ _ =>
      rw [Bool.and_eq_true, fieldsWithin_iff]
      refine ⟨sameShape_of_has distinct distinct' hv (h v hv), fun entry hentry => ?_⟩
      have ht := Entries.get?_of_mem distinct hentry
      obtain ⟨t', -, ht', -⟩ := exists_has_of_field ht hv (h v hv)
      refine ⟨t', ht', ih _ _ _ ht ht' fun w hw => ?_⟩
      -- a record with `w` among the probes in the slot
      obtain ⟨slots, rfl, -⟩ := has_struct_iff.1 hv
      have hinsert := h _ (has_insert hv ht hw)
      cases hinsert with
      | struct _ typed => exact typed _ t' w ht' (by simp)

theorem enum_within {variants others : List (String × Option Ty)}
    (ha : (Ty.enum a variants).Normal) (h : ∀ v, Has v (.enum a variants) → Has v (.enum b others))
    (ih : ∀ variant t t', Entries.get? variants variant = some (some t) →
      Entries.get? others variant = some (some t') → (∀ v, Has v t → Has v t') →
        isSubtype t t' = true) : (a == b && variantsWithin variants others) = true := by
  have hpayload : ∀ variant t, Entries.get? variants variant = some (some t) →
      t.Proper ∧ t.isNever = false := fun variant t => ha.proper.payload_spec
  obtain ⟨v, hv⟩ := ha.proper.exists_has rfl
  cases ha.proper with
  | enum _ ascending _ _ =>
    obtain rfl := name_eq_of_has hv (h v hv)
    rw [Bool.and_eq_true, beq_self_eq_true, variantsWithin_iff]
    refine ⟨rfl, fun entry hentry => ?_⟩
    have hlisted := Entries.get?_of_mem ascending.nodup hentry
    -- what the other side lists of a variant, it lists with every payload of this side
    have hother : ∀ payload, PayloadHas payload entry.2 →
        ∃ listed, Entries.get? others entry.1 = some listed ∧ PayloadHas payload listed := by
      intro payload hp
      obtain ⟨variant, payload', heq, hh⟩ :=
        has_enum_iff.1 (h _ (has_enum_iff.2 ⟨entry.1, payload, rfl, entry.2, hlisted, hp⟩))
      cases heq
      exact hh
    cases hcase : entry.2 with
    | none =>
      rw [hcase] at hother
      obtain ⟨listed, hget, hp⟩ := hother none (payloadHas_none none)
      refine ⟨listed, hget, ?_⟩
      cases listed with
      | none => rfl
      | some t' =>
        obtain ⟨w, hw, -⟩ := payloadHas_some_iff.1 hp
        cases hw
    | some t =>
      rw [hcase] at hlisted hother
      obtain ⟨ht, hne⟩ := hpayload _ t hlisted
      obtain ⟨w, hw⟩ := ht.exists_has hne
      obtain ⟨listed, hget, -⟩ := hother (some w) (payloadHas_some_iff.2 ⟨w, rfl, hw⟩)
      refine ⟨listed, hget, ?_⟩
      cases listed with
      | none => rfl
      | some t' =>
        refine ih _ t t' hlisted hget fun x hx => ?_
        obtain ⟨listed, hget', hp⟩ := hother (some x) (payloadHas_some_iff.2 ⟨x, rfl, hx⟩)
        obtain rfl := Option.some.inj (hget.symm.trans hget')
        obtain ⟨y, hy, hyt⟩ := payloadHas_some_iff.1 hp
        rwa [Option.some.inj hy]

end Structural

/-- Where one normal type has no probe that the other has not, the subtype test says yes. -/
theorem isSubtype_of_has {a b : Ty} (ha : a.Normal) (hb : b.Normal)
    (h : ∀ v, Has v a → Has v b) : isSubtype a b = true := by
  -- On the size of both types, as the test itself.
  induction hn : sizeOf a + sizeOf b using Nat.strong_induction_on generalizing a b with
  | _ n ih =>
    subst hn
    by_cases hnever : a = .never
    · exact hnever ▸ never_isSubtype
    obtain ⟨v, hv⟩ := ha.proper.exists_has (isNever_eq_false hnever)
    by_cases hany' : b = .any
    · exact hany' ▸ isSubtype_any
    by_cases hany : a = .any
    · subst hany
      exact absurd (eq_any_of_beyond hb.reduced (h _ (.any _))) hany'
    by_cases hplain : a.Plain
    · by_cases hplain' : b.Plain
      · cases akin_of_has hany hplain hany' hplain' hv (h v hv) with
        | number | numericNumber | string | literalString => rw [isSubtype]
        | numberNumeric => exact absurd h (not_within_numeric hb)
        | stringLiteral => exact absurd h not_within_stringLiteral
        | numeric =>
          cases ha.reduced with
          | numeric canonical _ =>
            cases hb.reduced with
            | numeric canonical' _ =>
              rw [isSubtype, NumericSet.contains_iff canonical' canonical]
              intro x hx
              obtain ⟨y, heq, hy⟩ := has_numeric_iff.1 (h _ (.numeric hx))
              cases heq
              exact hy
        | literal content other =>
          have heq := has_stringLiteral_iff.1 (h _ (.stringLiteral content))
          cases heq
          rw [isSubtype, beq_self_eq_true]
        | struct name name' fields others =>
          rw [isSubtype]
          refine struct_within ha hb h fun field t t' ht ht' hall => ?_
          exact ih _ (Nat.add_lt_add (sizeOf_lt_struct (Entries.mem_of_get? ht))
            (sizeOf_lt_struct (Entries.mem_of_get? ht'))) (ha.field ht) (hb.field ht') hall rfl
        | enum name name' variants others =>
          rw [isSubtype]
          refine enum_within ha h fun variant t t' ht ht' hall => ?_
          exact ih _ (Nat.add_lt_add (sizeOf_lt_enum (Entries.mem_of_get? ht) rfl)
            (sizeOf_lt_enum (Entries.mem_of_get? ht') rfl)) (ha.payload ht) (hb.payload ht') hall
            rfl
      · obtain ⟨members, rfl⟩ := exists_eq_oneOf hplain'
        obtain ⟨t, ht, hall⟩ := exists_member ha.proper ⟨hany, hnever, hplain⟩ hb.reduced h
        have hlt := Nat.add_lt_add_left (sizeOf_lt_oneOf ht) (sizeOf a)
        refine (Single.isSubtype_oneOf_iff ⟨hany, hnever, hplain⟩).2 ⟨t, ht, ?_⟩
        exact ih _ hlt ha (hb.member ht).1 hall rfl
    · obtain ⟨members, rfl⟩ := exists_eq_oneOf hplain
      have hne : b ≠ .never := by
        rintro rfl
        exact not_has_never (h v hv)
      refine (oneOf_isSubtype_iff hne).2 fun t ht => ?_
      have hlt := Nat.add_lt_add_right (sizeOf_lt_oneOf ht) (sizeOf b)
      exact ih _ hlt (ha.member ht).1 hb (fun w hw => h w (.oneOf ht hw)) rfl

theorem isSubtype_iff {a b : Ty} (ha : a.Normal) (hb : b.Normal) :
    isSubtype a b = true ↔ ∀ v, Has v a → Has v b :=
  ⟨fun h _ hv => has_of_isSubtype ha.proper hb.proper h hv, isSubtype_of_has ha hb⟩

end TypedFlow.Ty
