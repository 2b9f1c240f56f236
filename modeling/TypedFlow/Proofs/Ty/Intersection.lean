import TypedFlow.Proofs.Ty.Union
import TypedFlow.Ty.Intersection

/-!
# Intersections have the common probes

A struct keeps its fields with what they have in common, and an enum the variants that both list,
unless nothing is left of their payloads. Where a member is left with nothing the whole is `never`,
so two types are disjoint as soon as they have no common probe.
-/
namespace TypedFlow.Ty

/-- What an intersection is, by the kinds of the two types. -/
inductive Intersection : Ty → Ty → Ty → Prop
  | neverLeft (b : Ty) : Intersection .never b .never
  | neverRight (a : Ty) : Intersection a .never .never
  | anyLeft (b : Ty) : Intersection .any b b
  | anyRight (a : Ty) : Intersection a .any a
  | unionLeft (members : List Ty) (b : Ty) :
      Intersection (.oneOf members) b (unionAll (intersectAll members b))
  | unionRight (a : Ty) (members : List Ty) :
      Intersection a (.oneOf members) (unionAll (intersectAll members a))
  | number : Intersection .number .number .number
  | numberNumeric (set : NumericSet) : Intersection .number (.numeric set) (.numeric set)
  | numericNumber (set : NumericSet) : Intersection (.numeric set) .number (.numeric set)
  | numeric (set other : NumericSet) :
      Intersection (.numeric set) (.numeric other) (ofNumericSet (set.intersect other))
  | string : Intersection .string .string .string
  | stringLiteral (content : String) :
      Intersection .string (.stringLiteral content) (.stringLiteral content)
  | literalString (content : String) :
      Intersection (.stringLiteral content) .string (.stringLiteral content)
  | literal (content : String) :
      Intersection (.stringLiteral content) (.stringLiteral content) (.stringLiteral content)
  | literals {content other : String} (ne : content ≠ other) :
      Intersection (.stringLiteral content) (.stringLiteral other) .never
  | struct {name : String} {fields others common : List (String × Ty)}
      (shape : sameShape fields others = true)
      (left : intersectFields fields others = some common) :
      Intersection (.struct name fields) (.struct name others) (.struct name common)
  | structEmpty {name : String} {fields others : List (String × Ty)}
      (nothing : intersectFields fields others = none) :
      Intersection (.struct name fields) (.struct name others) .never
  | structs {name name' : String} {fields others : List (String × Ty)}
      (ne : ¬ (name == name' && sameShape fields others) = true) :
      Intersection (.struct name fields) (.struct name' others) .never
  | enum {name : String} {variants others : List (String × Option Ty)}
      (left : intersectVariants variants others ≠ []) :
      Intersection (.enum name variants) (.enum name others)
        (.enum name (intersectVariants variants others))
  | enumEmpty {name : String} {variants others : List (String × Option Ty)}
      (nothing : intersectVariants variants others = []) :
      Intersection (.enum name variants) (.enum name others) .never
  | enums {name name' : String} {variants others : List (String × Option Ty)} (ne : name ≠ name') :
      Intersection (.enum name variants) (.enum name' others) .never
  | apart {a b : Ty} (notAny : a ≠ .any) (plain : a.Plain) (notAny' : b ≠ .any) (plain' : b.Plain)
      (ne : ¬ Akin a b) : Intersection a b .never

theorem intersection (a b : Ty) : Intersection a b (intersect a b) := by
  unfold intersect
  split
  · exact .neverLeft b
  · exact .neverRight a
  · exact .anyLeft b
  · exact .anyRight a
  · exact .unionLeft _ b
  · exact .unionRight a _
  · exact .number
  · exact .numberNumeric _
  · exact .numericNumber _
  · exact .numeric _ _
  · exact .string
  · exact .stringLiteral _
  · exact .literalString _
  · split
    · rename_i heq
      obtain rfl := beq_iff_eq.1 heq
      exact .literal _
    · rename_i hne
      exact .literals (by simpa using hne)
  · split
    · rename_i hsame
      rw [Bool.and_eq_true, beq_iff_eq] at hsame
      obtain ⟨rfl, shape⟩ := hsame
      split
      · rename_i left
        exact .struct shape left
      · rename_i nothing
        exact .structEmpty nothing
    · rename_i hne
      exact .structs hne
  · split
    · rename_i heq
      obtain rfl := beq_iff_eq.1 heq
      split
      · rename_i nothing
        exact .enumEmpty nothing
      · rename_i left
        exact .enum left
    · rename_i hne
      exact .enums (by simpa using hne)
  · rename_i _ hany hplain _ hany' hplain' hnn hns hsn hss htt htl hlt hll hstruct henum
    refine .apart hany hplain hany' hplain' fun hakin => ?_
    -- every two types of one kind are among the cases above
    cases hakin with
    | number => exact hnn rfl rfl
    | numberNumeric set => exact hns set rfl rfl
    | numericNumber set => exact hsn set rfl rfl
    | numeric set other => exact hss set other rfl rfl
    | string => exact htt rfl rfl
    | stringLiteral content => exact htl content rfl rfl
    | literalString content => exact hlt content rfl rfl
    | literal content other => exact hll content other rfl rfl
    | struct name name' fields others => exact hstruct name fields name' others rfl rfl
    | enum name name' variants others => exact henum name variants name' others rfl rfl

/-- What an induction on the size of both types has to show. -/
def Meets (a b : Ty) : Prop :=
  (intersect a b).Proper ∧ ∀ v, Has v (intersect a b) ↔ Has v a ∧ Has v b

theorem Meets.isNever_iff {a b : Ty} (h : Meets a b) :
    (intersect a b).isNever = true ↔ ∀ v, ¬ (Has v a ∧ Has v b) := by
  constructor
  · intro hnever v hv
    have hmem := (h.2 v).2 hv
    rw [Ty.isNever_iff.1 hnever] at hmem
    exact not_has_never hmem
  · intro hnone
    by_contra hne
    obtain ⟨v, hv⟩ := h.1.exists_has (by simpa using hne)
    exact hnone v ((h.2 v).1 hv)

theorem intersectAll_eq (types : List Ty) (b : Ty) :
    intersectAll types b = types.map fun t => intersect t b := by
  induction types with
  | nil => simp [intersectAll]
  | cons t types ih => simp [intersectAll, ih]

theorem unionAll_intersectAll_spec {types : List Ty} {b : Ty} (h : ∀ t ∈ types, Meets t b) :
    (unionAll (intersectAll types b)).Proper ∧
      ∀ v, Has v (unionAll (intersectAll types b)) ↔ (∃ t ∈ types, Has v t) ∧ Has v b := by
  rw [intersectAll_eq]
  have hproper : ∀ t ∈ types.map (fun t => intersect t b), t.Proper := by
    intro t ht
    obtain ⟨s, hs, rfl⟩ := List.mem_map.1 ht
    exact (h s hs).1
  obtain ⟨hunion, hmem⟩ := unionAll_spec hproper
  refine ⟨hunion, fun v => (hmem v).trans ?_⟩
  constructor
  · intro hh
    obtain ⟨t, ht, hv⟩ := hh
    obtain ⟨s, hs, rfl⟩ := List.mem_map.1 ht
    obtain ⟨hvs, hvb⟩ := ((h s hs).2 v).1 hv
    exact ⟨⟨s, hs, hvs⟩, hvb⟩
  · intro hh
    obtain ⟨⟨s, hs, hvs⟩, hvb⟩ := hh
    exact ⟨_, List.mem_map_of_mem hs, ((h s hs).2 v).2 ⟨hvs, hvb⟩⟩

section Structs
variable {fields others common : List (String × Ty)}

theorem sameShape_of_isSome (hd : (Entries.names fields).Nodup) (hd' : (Entries.names others).Nodup)
    (h : ∀ name, (Entries.get? fields name).isSome = (Entries.get? others name).isSome) :
    sameShape fields others = true := by
  have hperm : (Entries.names fields).Perm (Entries.names others) := by
    rw [List.perm_ext_iff_of_nodup hd hd']
    intro name
    rw [← Entries.get?_isSome_iff, ← Entries.get?_isSome_iff, h]
  have hlength := hperm.length_eq
  unfold sameShape
  rw [Bool.and_eq_true, beq_iff_eq, List.all_eq_true]
  refine ⟨by simpa [Entries.names] using hlength, fun entry hentry => ?_⟩
  change Entries.has others entry.1 = true
  rw [Entries.has_eq_isSome, ← h, Entries.get?_isSome_iff]
  exact List.mem_map_of_mem hentry

theorem intersectFields_cons (name : String) (t : Ty) :
    intersectFields ((name, t) :: fields) others = (Entries.get? others name).bind fun other =>
      if (intersect t other).isNever then none
      else (intersectFields fields others).map ((name, intersect t other) :: ·) := by
  rw [intersectFields]
  cases Entries.get? others name with
  | none => rfl
  | some other => rfl

theorem intersectFields_eq_some (h : intersectFields fields others = some common) :
    Entries.names common = Entries.names fields ∧ (∀ entry ∈ common, entry.2.isNever = false) ∧
      ∀ name, Entries.get? common name =
        (Entries.get? fields name).bind fun t => (Entries.get? others name).map (intersect t) := by
  induction fields generalizing common with
  | nil =>
    rw [intersectFields] at h
    cases h
    exact ⟨rfl, by simp, fun _ => rfl⟩
  | cons entry fields ih =>
    obtain ⟨field, t⟩ := entry
    rw [intersectFields_cons] at h
    cases hget : Entries.get? others field with
    | none => simp [hget] at h
    | some other =>
      rw [hget, Option.bind_some] at h
      by_cases hnever : (intersect t other).isNever = true
      · rw [if_pos hnever] at h
        cases h
      · rw [if_neg hnever, Option.map_eq_some_iff] at h
        obtain ⟨rest, hrest, rfl⟩ := h
        obtain ⟨hnames, hinhabited, hlookup⟩ := ih hrest
        refine ⟨by simp [hnames], ?_, fun name => ?_⟩
        · simpa using ⟨by simpa using hnever, fun name t h => hinhabited (name, t) h⟩
        · rw [Entries.get?_cons, Entries.get?_cons]
          by_cases hname : field = name
          · subst hname
            simp [hget]
          · simp only [if_neg hname, hlookup]

/-- Where nothing is left, some field is left with nothing. -/
theorem intersectFields_eq_none (h : intersectFields fields others = none) :
    ∃ entry ∈ fields, ∀ other, Entries.get? others entry.1 = some other →
      (intersect entry.2 other).isNever = true := by
  induction fields with
  | nil =>
    rw [intersectFields] at h
    cases h
  | cons entry fields ih =>
    obtain ⟨field, t⟩ := entry
    rw [intersectFields_cons] at h
    cases hget : Entries.get? others field with
    | none => exact ⟨(field, t), List.mem_cons_self, by simp [hget]⟩
    | some other =>
      rw [hget, Option.bind_some] at h
      by_cases hnever : (intersect t other).isNever = true
      · exact ⟨(field, t), List.mem_cons_self, by simpa [hget] using hnever⟩
      · rw [if_neg hnever, Option.map_eq_none_iff] at h
        obtain ⟨entry, hentry, hall⟩ := ih h
        exact ⟨entry, List.mem_cons_of_mem _ hentry, hall⟩

theorem has_common_iff {name : String} {v : Probe} (hshape : ∀ field,
      (Entries.get? fields field).isSome = (Entries.get? others field).isSome)
    (hnames : Entries.names common = Entries.names fields)
    (hlookup : ∀ field, Entries.get? common field =
      (Entries.get? fields field).bind fun t => (Entries.get? others field).map (intersect t))
    (h : ∀ field t t', Entries.get? fields field = some t → Entries.get? others field = some t' →
      Meets t t') :
    Has v (.struct name common) ↔ Has v (.struct name fields) ∧ Has v (.struct name others) := by
  have hcommon : ∀ field,
      (Entries.get? common field).isSome = (Entries.get? fields field).isSome := by
    intro field
    rw [Bool.eq_iff_iff, Entries.get?_isSome_iff, Entries.get?_isSome_iff, hnames]
  constructor
  · intro hv
    constructor
    · refine has_struct_mono hcommon (fun field c t hc ht w hw => ?_) hv
      rw [hlookup, ht, Option.bind_some, Option.map_eq_some_iff] at hc
      obtain ⟨t', ht', rfl⟩ := hc
      exact (((h field t t' ht ht').2 w).1 hw).1
    · refine has_struct_mono (fun field => (hcommon field).trans (hshape field))
        (fun field c t' hc ht' w hw => ?_) hv
      rw [hlookup, Option.bind_eq_some_iff] at hc
      obtain ⟨t, ht, hc⟩ := hc
      rw [ht'] at hc
      obtain rfl := Option.some.inj hc
      exact (((h field t t' ht ht').2 w).1 hw).2
  · intro hh
    obtain ⟨hv, hv'⟩ := hh
    obtain ⟨slots, rfl, shape, typed⟩ := has_struct_iff.1 hv
    obtain ⟨slots', heq, -, typed'⟩ := has_struct_iff.1 hv'
    cases heq
    refine .struct (fun field => (shape field).trans (Option.isSome_eq_isSome.1 (hcommon field).symm))
      fun field c w hc hw => ?_
    rw [hlookup, Option.bind_eq_some_iff] at hc
    obtain ⟨t, ht, hc⟩ := hc
    obtain ⟨t', ht', rfl⟩ := Option.map_eq_some_iff.1 hc
    exact ((h field t t' ht ht').2 w).2 ⟨typed field t w ht hw, typed' field t' w ht' hw⟩

theorem sameShape_of_has {a b : String} {v : Probe} (hd : (Entries.names fields).Nodup)
    (hd' : (Entries.names others).Nodup) (hv : Has v (.struct a fields))
    (hv' : Has v (.struct b others)) : (a == b && sameShape fields others) = true := by
  obtain ⟨slots, rfl, shape, -⟩ := has_struct_iff.1 hv
  obtain ⟨slots', heq, shape', -⟩ := has_struct_iff.1 hv'
  cases heq
  have hshape := sameShape_of_isSome hd hd' fun name =>
    Option.isSome_eq_isSome.2 ((shape name).symm.trans (shape' name))
  rw [hshape, Bool.and_true, beq_iff_eq]

/-- Structs have a common probe only if every two fields of one name have. -/
theorem exists_has_of_field {a b field : String} {t : Ty} {v : Probe}
    (ht : Entries.get? fields field = some t) (hv : Has v (.struct a fields))
    (hv' : Has v (.struct b others)) :
    ∃ t' w, Entries.get? others field = some t' ∧ Has w t ∧ Has w t' := by
  obtain ⟨slots, rfl, shape, typed⟩ := has_struct_iff.1 hv
  obtain ⟨slots', heq, shape', typed'⟩ := has_struct_iff.1 hv'
  cases heq
  have hslot : slots field ≠ [] := by
    rw [ne_eq, shape, ht]
    exact Option.some_ne_none t
  have hother : Entries.get? others field ≠ none := by rwa [ne_eq, ← shape']
  obtain ⟨w, hw⟩ := List.exists_mem_of_ne_nil _ hslot
  obtain ⟨t', ht'⟩ := Option.ne_none_iff_exists'.1 hother
  exact ⟨t', w, ht', typed field t w ht hw, typed' field t' w ht' hw⟩

theorem common_spec {name : String} (ha : (Ty.struct name fields).Proper)
    (h : ∀ field t t', Entries.get? fields field = some t → Entries.get? others field = some t' →
      Meets t t')
    (shape : sameShape fields others = true) (left : intersectFields fields others = some common) :
    (Ty.struct name common).Proper ∧
      ∀ v, Has v (.struct name common) ↔
        Has v (.struct name fields) ∧ Has v (.struct name others) := by
  cases ha with
  | struct distinct _ _ =>
    obtain ⟨hnames, hinhabited, hlookup⟩ := intersectFields_eq_some left
    have hdistinct : (Entries.names common).Nodup := by rwa [hnames]
    refine ⟨.struct hdistinct (fun entry hentry => ?_) hinhabited,
      fun v => has_common_iff (get?_isSome_of_sameShape distinct shape) hnames hlookup h⟩
    have hget := Entries.get?_of_mem hdistinct hentry
    rw [hlookup, Option.bind_eq_some_iff] at hget
    obtain ⟨t, ht, hget⟩ := hget
    obtain ⟨t', ht', heq⟩ := Option.map_eq_some_iff.1 hget
    rw [← heq]
    exact (h _ t t' ht ht').1

theorem not_has_both_of_nothing {a b : String} {v : Probe} (hd : (Entries.names fields).Nodup)
    (h : ∀ field t t', Entries.get? fields field = some t → Entries.get? others field = some t' →
      Meets t t')
    (nothing : intersectFields fields others = none) (hv : Has v (.struct a fields)) :
    ¬ Has v (.struct b others) := by
  intro hv'
  obtain ⟨entry, hentry, hnever⟩ := intersectFields_eq_none nothing
  have ht := Entries.get?_of_mem hd hentry
  obtain ⟨t', w, ht', hw⟩ := exists_has_of_field ht hv hv'
  exact (h _ _ t' ht ht').isNever_iff.1 (hnever t' ht') w hw

end Structs

section Enums

/-- The payloads of a variant that both sides list, if any are left. -/
def commonPayload : Option Ty → Option Ty → Option (Option Ty)
  | payload, none => some payload
  | none, some other => some (some other)
  | some t, some other =>
    if (intersect t other).isNever then none else some (some (intersect t other))

theorem commonPayload_some (t other : Ty) : commonPayload (some t) (some other) =
    if (intersect t other).isNever then none else some (some (intersect t other)) := rfl

theorem intersectVariants_eq (variants others : List (String × Option Ty)) :
    intersectVariants variants others = Entries.mapEntries (fun name payload =>
      (Entries.get? others name).bind (commonPayload payload)) variants := by
  induction variants with
  | nil =>
    rw [intersectVariants]
    rfl
  | cons entry variants ih =>
    obtain ⟨name, payload⟩ := entry
    rw [intersectVariants, Entries.mapEntries_cons, ← ih]
    dsimp only
    cases hget : Entries.get? others name with
    | none => rfl
    | some other =>
      cases other with
      | none =>
        cases payload with
        | none => rfl
        | some t => rfl
      | some other =>
        cases payload with
        | none => rfl
        | some t =>
          simp only [Option.bind_some, commonPayload]
          by_cases hnever : (intersect t other).isNever = true
          · simp only [if_pos hnever]
          · simp only [if_neg hnever]

theorem commonPayload_spec {listed other : Option Ty}
    (h : ∀ t t', listed = some t → other = some t' → Meets t t') (carried : Option Probe) :
    (∃ common, commonPayload listed other = some common ∧ PayloadHas carried common) ↔
      PayloadHas carried listed ∧ PayloadHas carried other := by
  cases other with
  | none => simp [commonPayload, payloadHas_none]
  | some t' =>
    cases listed with
    | none => simp [commonPayload, payloadHas_none]
    | some t =>
      have hmeets := h t t' rfl rfl
      have hboth : PayloadHas carried (some t) ∧ PayloadHas carried (some t') ↔
          PayloadHas carried (some (intersect t t')) := by
        simp only [payloadHas_some_iff, hmeets.2]
        grind
      rw [hboth, commonPayload_some]
      by_cases hnever : (intersect t t').isNever = true
      · rw [if_pos hnever, payloadHas_some_iff, isNever_iff.1 hnever]
        simp [not_has_never]
      · rw [if_neg hnever]
        simp

theorem commonPayload_proper {listed other common : Option Ty}
    (h : ∀ t t', listed = some t → other = some t' → Meets t t')
    (hl : ∀ t, listed = some t → t.Proper ∧ t.isNever = false)
    (ho : ∀ t, other = some t → t.Proper ∧ t.isNever = false)
    (hc : commonPayload listed other = some common) :
    ∀ t, common = some t → t.Proper ∧ t.isNever = false := by
  cases other with
  | none =>
    cases hc
    exact hl
  | some t' =>
    cases listed with
    | none =>
      cases hc
      exact ho
    | some t =>
      rw [commonPayload_some] at hc
      by_cases hnever : (intersect t t').isNever = true
      · rw [if_pos hnever] at hc
        cases hc
      · rw [if_neg hnever] at hc
        cases hc
        intro s hs
        obtain rfl := Option.some.inj hs
        exact ⟨(h t t' rfl rfl).1, by simpa using hnever⟩

theorem has_commonVariants_iff {name : String} {variants others common : List (String × Option Ty)}
    {v : Probe} (hlookup : ∀ variant, Entries.get? common variant =
      (Entries.get? variants variant).bind fun listed =>
        (Entries.get? others variant).bind (commonPayload listed))
    (h : ∀ variant t t', Entries.get? variants variant = some (some t) →
      Entries.get? others variant = some (some t') → Meets t t') :
    Has v (.enum name common) ↔ Has v (.enum name variants) ∧ Has v (.enum name others) := by
  have hpayloads : ∀ {variant listed other}, Entries.get? variants variant = some listed →
      Entries.get? others variant = some other →
        ∀ t t', listed = some t → other = some t' → Meets t t' := by
    rintro variant listed other hlisted hother t t' rfl rfl
    exact h variant t t' hlisted hother
  constructor
  · intro hv
    obtain ⟨variant, payload, rfl, left, hleft, hpayload⟩ := has_enum_iff.1 hv
    rw [hlookup, Option.bind_eq_some_iff] at hleft
    obtain ⟨listed, hlisted, hleft⟩ := hleft
    obtain ⟨other, hother, hleft⟩ := Option.bind_eq_some_iff.1 hleft
    obtain ⟨hl, ho⟩ :=
      (commonPayload_spec (hpayloads hlisted hother) payload).1 ⟨left, hleft, hpayload⟩
    exact ⟨has_enum_iff.2 ⟨variant, payload, rfl, listed, hlisted, hl⟩,
      has_enum_iff.2 ⟨variant, payload, rfl, other, hother, ho⟩⟩
  · intro hh
    obtain ⟨hv, hv'⟩ := hh
    obtain ⟨variant, payload, rfl, listed, hlisted, hl⟩ := has_enum_iff.1 hv
    obtain ⟨variant', payload', heq, other, hother, ho⟩ := has_enum_iff.1 hv'
    cases heq
    obtain ⟨left, hleft, hpayload⟩ :=
      (commonPayload_spec (hpayloads hlisted hother) payload).2 ⟨hl, ho⟩
    refine has_enum_iff.2 ⟨variant, payload, rfl, left, ?_, hpayload⟩
    rw [hlookup, hlisted, Option.bind_some, hother, Option.bind_some, hleft]

theorem name_eq_of_has {a b : String} {variants others : List (String × Option Ty)} {v : Probe}
    (hv : Has v (.enum a variants)) (hv' : Has v (.enum b others)) : a = b := by
  obtain ⟨variant, payload, rfl, -⟩ := has_enum_iff.1 hv
  obtain ⟨variant', payload', heq, -⟩ := has_enum_iff.1 hv'
  cases heq
  rfl

theorem get?_intersectVariants {variants others : List (String × Option Ty)}
    (hd : (Entries.names variants).Nodup) (variant : String) :
    Entries.get? (intersectVariants variants others) variant =
      (Entries.get? variants variant).bind fun listed =>
        (Entries.get? others variant).bind (commonPayload listed) := by
  rw [intersectVariants_eq, Entries.get?_mapEntries _ hd]

theorem has_intersectVariants_iff {name : String} {variants others : List (String × Option Ty)}
    {v : Probe} (hd : (Entries.names variants).Nodup)
    (h : ∀ variant t t', Entries.get? variants variant = some (some t) →
      Entries.get? others variant = some (some t') → Meets t t') :
    Has v (.enum name (intersectVariants variants others)) ↔
      Has v (.enum name variants) ∧ Has v (.enum name others) :=
  has_commonVariants_iff (get?_intersectVariants hd) h

theorem proper_intersectVariants {name : String} {variants others : List (String × Option Ty)}
    (ha : (Ty.enum name variants).Proper) (hb : (Ty.enum name others).Proper)
    (h : ∀ variant t t', Entries.get? variants variant = some (some t) →
      Entries.get? others variant = some (some t') → Meets t t')
    (left : intersectVariants variants others ≠ []) :
    (Ty.enum name (intersectVariants variants others)).Proper := by
  have hpayload : ∀ variant t, Entries.get? variants variant = some (some t) →
      t.Proper ∧ t.isNever = false := fun variant t => ha.payload_spec
  have hpayload' : ∀ variant t, Entries.get? others variant = some (some t) →
      t.Proper ∧ t.isNever = false := fun variant t => hb.payload_spec
  cases ha with
  | enum _ ascending _ _ =>
    have hascending : Entries.Ascending (intersectVariants variants others) := by
      rw [intersectVariants_eq]
      exact Entries.ascending_mapEntries _ ascending
    have hproper : ∀ entry ∈ intersectVariants variants others, ∀ t, entry.2 = some t →
        t.Proper ∧ t.isNever = false := by
      intro entry hentry
      have hentry := Entries.get?_of_mem hascending.nodup hentry
      rw [get?_intersectVariants ascending.nodup, Option.bind_eq_some_iff] at hentry
      obtain ⟨listed, hlisted, hentry⟩ := hentry
      obtain ⟨other, hother, hcommon⟩ := Option.bind_eq_some_iff.1 hentry
      apply commonPayload_proper _ _ _ hcommon
      · rintro t t' rfl rfl
        exact h _ t t' hlisted hother
      · rintro t rfl
        exact hpayload _ t hlisted
      · rintro t rfl
        exact hpayload' _ t hother
    exact .enum left hascending (fun entry hentry t ht => (hproper entry hentry t ht).1)
      fun entry hentry t ht => (hproper entry hentry t ht).2

theorem not_has_enum_nil {name : String} {v : Probe} : ¬ Has v (.enum name []) := by
  rw [has_enum_iff]
  simp [Entries.get?_nil]

end Enums

/-- What holds for smaller types: their intersection is as it should be. -/
def SmallerMeet (n : ℕ) : Prop :=
  ∀ a b : Ty, sizeOf a + sizeOf b < n → a.Proper → b.Proper → Meets a b

namespace SmallerMeet
variable {a b : String} {t t' : Ty}

theorem field {fields others : List (String × Ty)} {field : String}
    (ih : SmallerMeet (sizeOf (Ty.struct a fields) + sizeOf (Ty.struct b others)))
    (ha : (Ty.struct a fields).Proper) (hb : (Ty.struct b others).Proper)
    (ht : Entries.get? fields field = some t) (ht' : Entries.get? others field = some t') :
    Meets t t' :=
  ih t t' (Nat.add_lt_add (sizeOf_lt_struct (Entries.mem_of_get? ht))
    (sizeOf_lt_struct (Entries.mem_of_get? ht'))) (ha.field ht) (hb.field ht')

theorem payload {variants others : List (String × Option Ty)} {variant : String}
    (ih : SmallerMeet (sizeOf (Ty.enum a variants) + sizeOf (Ty.enum b others)))
    (ha : (Ty.enum a variants).Proper) (hb : (Ty.enum b others).Proper)
    (ht : Entries.get? variants variant = some (some t))
    (ht' : Entries.get? others variant = some (some t')) : Meets t t' :=
  ih t t' (Nat.add_lt_add (sizeOf_lt_enum (Entries.mem_of_get? ht) rfl)
    (sizeOf_lt_enum (Entries.mem_of_get? ht') rfl)) (ha.payload_spec ht).1 (hb.payload_spec ht').1

theorem members {members : List Ty} (ih : SmallerMeet (sizeOf (Ty.oneOf members) + sizeOf t))
    (hm : (Ty.oneOf members).Proper) (ht : t.Proper) :
    (unionAll (intersectAll members t)).Proper ∧
      ∀ v, Has v (unionAll (intersectAll members t)) ↔ Has v (.oneOf members) ∧ Has v t := by
  obtain ⟨hproper, hmem⟩ := unionAll_intersectAll_spec fun s hs =>
    ih s t (Nat.add_lt_add_right (sizeOf_lt_oneOf hs) _) (hm.member hs) ht
  exact ⟨hproper, fun v => by rw [hmem, has_oneOf_iff]⟩

end SmallerMeet

/-- What `Meets` asks of an intersection that is `never`. -/
theorem never_meets {a b : Ty} (h : ∀ v, Has v a → ¬ Has v b) :
    Ty.never.Proper ∧ ∀ v, Has v .never ↔ Has v a ∧ Has v b :=
  ⟨.never, fun v => ⟨fun hv => absurd hv not_has_never, fun hh => absurd hh.2 (h v hh.1)⟩⟩

/-- The intersection of proper types is proper and has exactly the common probes. -/
theorem intersect_spec {a b : Ty} (ha : a.Proper) (hb : b.Proper) : Meets a b := by
  -- On the size of both types, since a union on the right exchanges the sides.
  induction hn : sizeOf a + sizeOf b using Nat.strong_induction_on generalizing a b with
  | _ n ih =>
    subst hn
    have hsmaller : SmallerMeet (sizeOf a + sizeOf b) := fun _ _ hlt ha hb => ih _ hlt ha hb rfl
    have hcases := intersection a b
    rw [Meets]
    generalize intersect a b = c at hcases
    cases hcases with
    | neverLeft => exact never_meets fun v hv => absurd hv not_has_never
    | neverRight => exact never_meets fun v _ => not_has_never
    | anyLeft => exact ⟨hb, fun v => by simp [has_any]⟩
    | anyRight => exact ⟨ha, fun v => by simp [has_any]⟩
    | unionLeft => exact hsmaller.members ha hb
    | unionRight a members =>
      rw [Nat.add_comm] at hsmaller
      obtain ⟨hproper, hmem⟩ := hsmaller.members hb ha
      exact ⟨hproper, fun v => (hmem v).trans and_comm⟩
    | number | string | literal => exact ⟨ha, fun v => and_self_iff.symm⟩
    | numberNumeric => exact ⟨hb, fun v => (and_iff_right_of_imp has_number_of_numeric).symm⟩
    | numericNumber => exact ⟨ha, fun v => (and_iff_left_of_imp has_number_of_numeric).symm⟩
    | stringLiteral => exact ⟨hb, fun v => (and_iff_right_of_imp has_string_of_literal).symm⟩
    | literalString => exact ⟨ha, fun v => (and_iff_left_of_imp has_string_of_literal).symm⟩
    | numeric =>
      cases ha with
      | numeric hs _ =>
        cases hb with
        | numeric hs' _ =>
          obtain ⟨hsound, hmem⟩ := NumericSet.intersect_spec hs hs'
          obtain ⟨hproper, hprobes⟩ := ofNumericSet_spec hsound
          refine ⟨hproper, fun v => ?_⟩
          simp only [hprobes, has_numeric_iff, hmem]
          grind
    | literals hne =>
      refine never_meets fun v hv hv' => hne ?_
      rw [has_stringLiteral_iff] at hv hv'
      simpa [hv] using hv'
    | struct shape left =>
      exact common_spec ha (fun _ _ _ => hsmaller.field ha hb) shape left
    | structEmpty nothing =>
      exact never_meets fun v =>
        not_has_both_of_nothing ha.nodup_fields (fun _ _ _ => hsmaller.field ha hb) nothing
    | structs hne =>
      exact never_meets fun v hv hv' =>
        hne (sameShape_of_has ha.nodup_fields hb.nodup_fields hv hv')
    | enum left =>
      exact ⟨proper_intersectVariants ha hb (fun _ _ _ => hsmaller.payload ha hb) left, fun v =>
        has_intersectVariants_iff ha.nodup_variants fun _ _ _ => hsmaller.payload ha hb⟩
    | enumEmpty nothing =>
      refine never_meets fun v hv hv' => ?_
      have hboth := (has_intersectVariants_iff ha.nodup_variants fun _ _ _ =>
        hsmaller.payload ha hb).2 ⟨hv, hv'⟩
      rw [nothing] at hboth
      exact not_has_enum_nil hboth
    | enums hne => exact never_meets fun v hv hv' => hne (name_eq_of_has hv hv')
    | apart hany hplain hany' hplain' hne =>
      exact never_meets fun v hv hv' => hne (akin_of_has hany hplain hany' hplain' hv hv')

end TypedFlow.Ty
