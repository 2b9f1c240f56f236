import TypedFlow.Proofs.NumericSet.Containment
import TypedFlow.Proofs.NumericSet.Standard
import TypedFlow.Proofs.Ty.Disjointness
import TypedFlow.Proofs.Ty.Gathering

/-!
# Overlapping types

Two types overlap if their intersection is not `never`. A type overlaps everything that a subtype of
it overlaps, so that nothing is lost where a union leaves out a struct that another one covers,
merges enums or unites numeric sets: a union overlaps whatever one of its members does. The subtype
test is needed to be right for this, which it is as long as the ends of intervals stay within the
limit.
-/
namespace TypedFlow

theorem NumericSet.Fitted.solid {s : NumericSet} (h : s.Fitted) : s.Solid :=
  Normalized.solid h.standard

namespace Ty

/-- An enum lists a variant. -/
def ListedLayer : Ty → Prop
  | .enum _ variants => variants ≠ []
  | _ => True

theorem kept_listedLayer : Kept ListedLayer fun _ => True where
  any := trivial
  never := trivial
  number := trivial
  string := trivial
  stringLiteral _ := trivial
  set _ := trivial
  numeric _ _ := trivial
  union _ _ := trivial
  intersect _ _ := trivial
  struct _ _ := trivial
  enum _ hne _ := hne
  merge _ hv _ := Gathered.mergeVariants_ne_nil (.inl hv)
  oneOf _ _ := trivial

/-- A numeric set is made of intervals with ends within the limit. -/
def FittedLayer : Ty → Prop
  | .numeric set => set.Fitted
  | _ => True

theorem kept_fittedLayer : Kept FittedLayer NumericSet.Fitted where
  any := trivial
  never := trivial
  number := trivial
  string := trivial
  stringLiteral _ := trivial
  set h := h
  numeric h _ := h
  union := NumericSet.fitted_union
  intersect := NumericSet.fitted_intersect
  struct _ _ := trivial
  enum _ _ _ := trivial
  merge _ _ _ := trivial
  oneOf _ _ := trivial

/-- Orderly, without empty enums, and with ends within the limit. -/
def MeasuredLayer (t : Ty) : Prop := OrderlyLayer t ∧ ListedLayer t ∧ FittedLayer t

abbrev Measured (t : Ty) : Prop := Everywhere MeasuredLayer t

theorem kept_measuredLayer : Kept MeasuredLayer NumericSet.Fitted := by
  have hsets : (fun set => NumericSet.Normalized set ∧ True ∧ set.Fitted) = NumericSet.Fitted :=
    funext fun set => propext ⟨fun h => h.2.2, fun h => ⟨h.standard, trivial, h⟩⟩
  exact hsets ▸ kept_orderlyLayer.and (kept_listedLayer.and kept_fittedLayer)

theorem measured_iff {t : Ty} : t.Measured ↔
    t.Orderly ∧ Everywhere ListedLayer t ∧ Everywhere FittedLayer t :=
  everywhere_and_iff.trans (and_congr_right fun _ => everywhere_and_iff)

theorem Measured.orderly {t : Ty} (h : t.Measured) : t.Orderly := (measured_iff.1 h).1

theorem Measured.concise {t : Ty} (h : t.Measured) : t.Concise := by
  obtain ⟨horderly, hlisted, -⟩ := h.here
  cases t with
  | oneOf members => exact horderly
  | numeric set => exact horderly.2
  | enum name variants => exact hlisted
  | _ => trivial

theorem measured_unionAll {types : List Ty} (h : ∀ t ∈ types, t.Measured) :
    (unionAll types).Measured :=
  everywhere_unionAll kept_measuredLayer h

theorem measured_intersect {a b : Ty} (ha : a.Measured) (hb : b.Measured) :
    (intersect a b).Measured :=
  everywhere_intersect kept_measuredLayer ha hb

/-- Something is left of both. -/
def Overlaps (a b : Ty) : Prop := intersect a b ≠ .never

section Kinds
variable {a b : Ty} {members : List Ty}

theorem overlaps_comm (ha : a.Orderly) (hb : b.Orderly) : Overlaps a b ↔ Overlaps b a :=
  not_congr ⟨intersect_swapped a b ha hb, intersect_swapped b a hb ha⟩

theorem overlaps_any : Overlaps a .any ↔ a ≠ .never := by
  rw [Overlaps, intersect_any]

theorem any_overlaps : Overlaps .any b ↔ b ≠ .never := by
  rw [Overlaps, any_intersect]

theorem not_overlaps_never : ¬ Overlaps a .never := fun h => h intersect_never

theorem not_never_overlaps : ¬ Overlaps .never b := fun h => h (by simp [intersect])

theorem oneOf_overlaps_iff (hm : (Ty.oneOf members).Orderly) (hb : b.Orderly) :
    Overlaps (.oneOf members) b ↔ ∃ t ∈ members, Overlaps t b := by
  by_cases hany : b = .any
  · subst hany
    obtain ⟨hlength, hminimal⟩ := hm.here
    obtain ⟨t, ht⟩ := List.exists_mem_of_length_pos (Nat.lt_of_lt_of_le Nat.zero_lt_two hlength)
    exact iff_of_true (overlaps_any.2 (by simp))
      ⟨t, ht, overlaps_any.2 (hminimal.single t ht).notNever⟩
  · rw [Overlaps, ne_eq, oneOf_intersect_eq_never_iff hm hb hany]
    simp [Overlaps]

theorem overlaps_oneOf_iff (ha : a.Orderly) (hm : (Ty.oneOf members).Orderly) :
    Overlaps a (.oneOf members) ↔ ∃ t ∈ members, Overlaps a t := by
  rw [overlaps_comm ha hm, oneOf_overlaps_iff hm ha]
  exact exists_congr fun t => and_congr_right fun ht => overlaps_comm (hm.inside t ht) ha

theorem numeric_overlaps_iff {s t : NumericSet} (hs : s.Sound) (ht : t.Sound) :
    Overlaps (.numeric s) (.numeric t) ↔ ∃ x, s.Mem x ∧ t.Mem x := by
  obtain ⟨hsound, hmem⟩ := NumericSet.intersect_spec hs ht
  rw [Overlaps, intersect, ne_eq, ofNumericSet_eq_never_iff, NumericSet.isEmpty_iff hsound]
  simp [hmem]

theorem exists_intersectFields_iff {fields others : List (String × Ty)} :
    (∃ common, intersectFields fields others = some common) ↔
      ∀ e ∈ fields, ∃ t, Entries.get? others e.1 = some t ∧ Overlaps e.2 t := by
  induction fields with
  | nil => simp [intersectFields]
  | cons entry fields ih =>
    obtain ⟨field, s⟩ := entry
    rw [List.forall_mem_cons, ← ih, intersectFields_cons]
    cases Entries.get? others field with
    | none => simp
    | some t =>
      by_cases hnever : intersect s t = .never
      · simp [Overlaps, hnever, isNever]
      · have hleft : (intersect s t).isNever = false := isNever_eq_false hnever
        simp [Overlaps, hnever, hleft]

theorem struct_overlaps_iff {name name' : String} {fields others : List (String × Ty)} :
    Overlaps (.struct name fields) (.struct name' others) ↔
      name = name' ∧ sameShape fields others = true ∧
        ∀ e ∈ fields, ∃ t, Entries.get? others e.1 = some t ∧ Overlaps e.2 t := by
  rw [← exists_intersectFields_iff, Overlaps, intersect]
  by_cases hsame : name = name' ∧ sameShape fields others = true
  · rw [if_pos (by simpa using hsame)]
    cases hcommon : intersectFields fields others with
    | none => simp
    | some common => simpa using hsame
  · rw [if_neg (by simpa using hsame)]
    simp only [ne_eq, not_true_eq_false, false_iff]
    exact fun h => hsame ⟨h.1, h.2.1⟩

/-- A variant with payloads of both types is left. -/
def PayloadsOverlap (p q : Option Ty) : Prop := ∀ s t, p = some s → q = some t → Overlaps s t

theorem enum_overlaps_iff {name name' : String} {variants others : List (String × Option Ty)}
    (hd : (Entries.names variants).Nodup) :
    Overlaps (.enum name variants) (.enum name' others) ↔
      name = name' ∧ ∃ variant p q, Entries.get? variants variant = some p ∧
        Entries.get? others variant = some q ∧ PayloadsOverlap p q := by
  rw [Overlaps, ne_eq, intersect_enum_eq_never_iff, intersectVariants_eq_nil_iff hd]
  simp only [commonPayload_eq_none_iff, PayloadsOverlap, Overlaps]
  push Not
  rfl

end Kinds

section Subtypes

/-- What holds for smaller types: whatever a subtype overlaps, the type overlaps. -/
def OverlapsMoreBelow (n : ℕ) : Prop :=
  ∀ a b d : Ty, sizeOf a + sizeOf b + sizeOf d < n → a.Measured → b.Measured → d.Measured →
    isSubtype a b = true → Overlaps a d → Overlaps b d

variable {n : ℕ} {name name' : String} {d : Ty}

theorem struct_overlaps_mono {fields others listed : List (String × Ty)}
    (hd : (Entries.names fields).Nodup) (hd' : (Entries.names others).Nodup)
    (hl : (Entries.names listed).Nodup) (hshape : sameShape fields others = true)
    (ih : ∀ s ∈ fields, ∀ t ∈ others, isSubtype s.2 t.2 = true → ∀ u ∈ listed,
      Overlaps s.2 u.2 → Overlaps t.2 u.2)
    (hwithin : ∀ s ∈ fields, ∃ t, Entries.get? others s.1 = some t ∧ isSubtype s.2 t = true)
    (h : Overlaps (.struct name fields) (.struct name' listed)) :
    Overlaps (.struct name others) (.struct name' listed) := by
  obtain ⟨rfl, hlisted, hfields⟩ := struct_overlaps_iff.1 h
  have hsome := get?_isSome_of_sameShape hd hshape
  have hsome' := get?_isSome_of_sameShape hd hlisted
  refine struct_overlaps_iff.2
    ⟨rfl, sameShape_of_isSome hd' hl fun field => (hsome field).symm.trans (hsome' field), ?_⟩
  intro e he
  have hget := Entries.get?_of_mem hd' he
  obtain ⟨s, hs⟩ := Option.isSome_iff_exists.1 ((hsome e.1).trans (by rw [hget]; rfl))
  have hmem := Entries.mem_of_get? hs
  obtain ⟨t, ht, hsub⟩ := hwithin _ hmem
  obtain rfl := Option.some.inj (ht.symm.trans hget)
  obtain ⟨u, hu, hoverlap⟩ := hfields _ hmem
  exact ⟨u, hu, ih _ hmem e he hsub _ (Entries.mem_of_get? hu) hoverlap⟩

theorem payloadsOverlap_mono {p q r : Option Ty} (h : payloadWithin p q = true)
    (ih : ∀ s t u, p = some s → q = some t → r = some u → isSubtype s t = true → Overlaps s u →
      Overlaps t u) (hp : PayloadsOverlap p r) : PayloadsOverlap q r := by
  rintro t u rfl rfl
  cases p with
  | none => cases h
  | some s => exact ih s t u rfl rfl rfl h (hp s u rfl rfl)

theorem enum_overlaps_mono {variants others listed : List (String × Option Ty)}
    (hd : (Entries.names variants).Nodup) (hd' : (Entries.names others).Nodup)
    (ih : ∀ e ∈ variants, ∀ f ∈ others, ∀ g ∈ listed, ∀ s t u, e.2 = some s → f.2 = some t →
      g.2 = some u → isSubtype s t = true → Overlaps s u → Overlaps t u)
    (hwithin : ∀ e ∈ variants, ∃ q, Entries.get? others e.1 = some q ∧ payloadWithin e.2 q = true)
    (h : Overlaps (.enum name variants) (.enum name' listed)) :
    Overlaps (.enum name others) (.enum name' listed) := by
  obtain ⟨rfl, variant, p, r, hp, hr, hoverlap⟩ := (enum_overlaps_iff hd).1 h
  have hmem := Entries.mem_of_get? hp
  obtain ⟨q, hq, hpayload⟩ := hwithin _ hmem
  refine (enum_overlaps_iff hd').2 ⟨rfl, variant, q, r, hq, hr, ?_⟩
  exact payloadsOverlap_mono hpayload
    (ih _ hmem _ (Entries.mem_of_get? hq) _ (Entries.mem_of_get? hr)) hoverlap

theorem number_overlaps {set : NumericSet} (hplain : d.Plain) (h : Overlaps (.numeric set) d) :
    Overlaps .number d := by
  cases d with
  | oneOf members => exact absurd rfl (hplain members)
  | _ => simp [Overlaps, intersect] at h ⊢

theorem string_overlaps {content : String} (hplain : d.Plain)
    (h : Overlaps (.stringLiteral content) d) : Overlaps .string d := by
  cases d with
  | oneOf members => exact absurd rfl (hplain members)
  | _ => simp [Overlaps, intersect] at h ⊢

theorem numeric_overlaps_mono {set other : NumericSet} (hs : set.Fitted) (ho : other.Fitted)
    (hd : d.Measured) (hplain : d.Plain) (hwithin : other.contains set = true)
    (h : Overlaps (.numeric set) d) : Overlaps (.numeric other) d := by
  cases d with
  | numeric u =>
    have hu := hd.here.2.2.sound
    rw [numeric_overlaps_iff hs.sound hu] at h
    rw [numeric_overlaps_iff ho.sound hu]
    obtain ⟨x, hx, hux⟩ := h
    exact ⟨x, NumericSet.mem_of_contains ho.sound hs.sound hwithin hx, hux⟩
  | oneOf members => exact absurd rfl (hplain members)
  | _ => simp [Overlaps, intersect] at h ⊢

/-- Neither side is a union, and neither is the type that both are compared with. -/
theorem overlaps_mono_plain {a b : Ty} (ih : OverlapsMoreBelow (sizeOf a + sizeOf b + sizeOf d))
    (ha : a.Measured) (hb : b.Measured) (hd : d.Measured) (hpa : a.Plain) (hpb : b.Plain)
    (hpd : d.Plain) (hsub : isSubtype a b = true) (h : Overlaps a d) : Overlaps b d := by
  cases covered_of_isSubtype hsub with
  | never => exact absurd h not_never_overlaps
  | any =>
    rw [any_overlaps]
    rintro rfl
    exact not_overlaps_never h
  | union => exact absurd rfl (hpa _)
  | member => exact absurd rfl (hpb _)
  | number | string | literal => exact h
  | numericNumber => exact number_overlaps hpd h
  | literalString => exact string_overlaps hpd h
  | numeric within => exact numeric_overlaps_mono ha.here.2.2 hb.here.2.2 hd hpd within h
  | struct shape within =>
    cases d with
    | struct other listed =>
      refine struct_overlaps_mono ha.here.1 hb.here.1 hd.here.1 shape ?_ within h
      intro s hs t ht hst u hu
      have hs' := (everywhere_struct_iff.1 ha).2 s hs
      have ht' := (everywhere_struct_iff.1 hb).2 t ht
      have hu' := (everywhere_struct_iff.1 hd).2 u hu
      exact ih _ _ _ (Nat.add_lt_add (Nat.add_lt_add (sizeOf_lt_struct hs) (sizeOf_lt_struct ht))
        (sizeOf_lt_struct hu)) hs' ht' hu' hst
    | oneOf members => exact absurd rfl (hpd members)
    | any => simp [overlaps_any]
    | _ => simp [Overlaps, intersect] at h
  | enum within =>
    cases d with
    | enum other listed =>
      refine enum_overlaps_mono ha.here.1.nodup hb.here.1.nodup ?_ within h
      intro e he f hf g hg s t u hs ht hu
      have hs' := (everywhere_enum_iff.1 ha).2 e he s hs
      have ht' := (everywhere_enum_iff.1 hb).2 f hf t ht
      have hu' := (everywhere_enum_iff.1 hd).2 g hg u hu
      exact ih _ _ _ (Nat.add_lt_add (Nat.add_lt_add (sizeOf_lt_enum he hs) (sizeOf_lt_enum hf ht))
        (sizeOf_lt_enum hg hu)) hs' ht' hu'
    | oneOf members => exact absurd rfl (hpd members)
    | any => simp [overlaps_any]
    | _ => simp [Overlaps, intersect] at h

/-- Whatever a subtype overlaps, the type overlaps. -/
theorem Overlaps.mono {a b : Ty} (ha : a.Measured) (hb : b.Measured) (hd : d.Measured)
    (hsub : isSubtype a b = true) (h : Overlaps a d) : Overlaps b d := by
  induction hn : sizeOf a + sizeOf b + sizeOf d using Nat.strong_induction_on
    generalizing a b d with
  | _ n ih =>
    subst hn
    have hbelow : OverlapsMoreBelow (sizeOf a + sizeOf b + sizeOf d) :=
      fun a' b' d' hlt ha hb hd hsub h => ih _ hlt ha hb hd hsub h rfl
    by_cases hpd : d.Plain
    · by_cases hpa : a.Plain
      · by_cases hpb : b.Plain
        · exact overlaps_mono_plain hbelow ha hb hd hpa hpb hpd hsub h
        · obtain ⟨others, rfl⟩ := exists_eq_oneOf hpb
          have hsingle : a.Single := by
            refine ⟨?_, ?_, hpa⟩
            · rintro rfl
              cases any_isSubtype_iff.1 hsub
            · rintro rfl
              exact not_never_overlaps h
          obtain ⟨t, ht, hsub⟩ := hsingle.isSubtype_oneOf_iff.1 hsub
          have hlt := sizeOf_lt_of_mem_parts (t := .oneOf others) ht
          exact (oneOf_overlaps_iff hb.orderly hd.orderly).2
            ⟨t, ht, hbelow a t d (by omega) ha (hb.inside t ht) hd hsub h⟩
      · obtain ⟨members, rfl⟩ := exists_eq_oneOf hpa
        obtain ⟨t, ht, h⟩ := (oneOf_overlaps_iff ha.orderly hd.orderly).1 h
        have hne : b ≠ .never := by
          rintro rfl
          cases isSubtype_never_iff.1 hsub
        have hlt := sizeOf_lt_of_mem_parts (t := .oneOf members) ht
        exact hbelow t b d (by omega) (ha.inside t ht) hb hd
          ((oneOf_isSubtype_iff hne).1 hsub t ht) h
    · obtain ⟨members, rfl⟩ := exists_eq_oneOf hpd
      obtain ⟨t, ht, h⟩ := (overlaps_oneOf_iff ha.orderly hd.orderly).1 h
      have hlt := sizeOf_lt_of_mem_parts (t := .oneOf members) ht
      exact (overlaps_oneOf_iff hb.orderly hd.orderly).2
        ⟨t, ht, hbelow a b t (by omega) ha hb (hd.inside t ht) hsub h⟩

end Subtypes

section Unions
variable {d t : Ty} {types : List Ty}

theorem payloadsOverlap_mergePayload {present : Option (Option Ty)} {payload q : Option Ty}
    (ih : ∀ s, q = some s → ∀ a b, present = some (some a) → payload = some b →
      Overlaps a s ∨ Overlaps b s → Overlaps (union a b) s)
    (h : (∃ p, present = some p ∧ PayloadsOverlap p q) ∨ PayloadsOverlap payload q) :
    PayloadsOverlap (Gathered.mergePayload union present payload) q := by
  intro r s hr hs
  simp only [Gathered.mergePayload] at hr
  split at hr
  · exact (h.resolve_left (by simp)) r s hr hs
  · rename_i a b
    cases hr
    refine ih s hs a b rfl rfl (h.imp ?_ fun hb => hb b s rfl hs)
    rintro ⟨p, hpresent, hp⟩
    exact hp a s (Option.some.inj hpresent).symm hs
  · cases hr

namespace Gathered
variable {g : Gathered}

section Merged
variable (hd : d.Measured) (hplain : d.Plain) (hany : d ≠ .any)
  (ih : ∀ s ∈ d.parts, ∀ a b, a.Measured → b.Measured → Overlaps a s ∨ Overlaps b s →
    Overlaps (union a b) s)
include hd hplain hany

theorem overlaps_numeric_union {a b : NumericSet} (ha : a.Sound) (hb : b.Sound)
    (h : Overlaps (.numeric a) d ∨ Overlaps (.numeric b) d) :
    Overlaps (.numeric (a.union b)) d := by
  cases d with
  | numeric s =>
    have hs := hd.here.2.2.sound
    rw [numeric_overlaps_iff ha hs, numeric_overlaps_iff hb hs] at h
    rw [numeric_overlaps_iff (NumericSet.sound_union ha hb) hs]
    simp only [NumericSet.mem_union ha hb]
    rcases h with ⟨x, hx, hsx⟩ | ⟨x, hx, hsx⟩
    · exact ⟨x, .inl hx, hsx⟩
    · exact ⟨x, .inr hx, hsx⟩
  | oneOf members => exact absurd rfl (hplain members)
  | any => exact absurd rfl hany
  | _ => simp [Overlaps, intersect] at h ⊢

theorem overlaps_elim_union {present : Option NumericSet} {set : NumericSet}
    (hp : ∀ s, present = some s → s.Sound) (hs : set.Sound)
    (h : (∃ s, present = some s ∧ Overlaps (.numeric s) d) ∨ Overlaps (.numeric set) d) :
    Overlaps (.numeric (present.elim set (·.union set))) d := by
  cases present with
  | none => simpa using h
  | some s => exact overlaps_numeric_union hd hplain hany (hp s rfl) hs (by simpa using h)

include ih

theorem overlaps_mergeVariants {name : String} {variants others : List (String × Option Ty)}
    (hv : (Ty.enum name variants).Measured) (ho : (Ty.enum name others).Measured)
    (h : Overlaps (.enum name variants) d ∨ Overlaps (.enum name others) d) :
    Overlaps (.enum name (mergeVariants union variants others)) d := by
  have hdv := hv.here.1.nodup
  have hdo := ho.here.1.nodup
  cases d with
  | enum name' listed =>
    rw [enum_overlaps_iff hdv, enum_overlaps_iff hdo, ← and_or_left] at h
    obtain ⟨rfl, h⟩ := h
    rw [enum_overlaps_iff (ascending_mergeVariants hv.here.1).nodup]
    have hget : ∀ variant, Entries.get? (mergeVariants union variants others) variant =
        ((Entries.get? others variant).map (mergePayload union (Entries.get? variants variant))).or
          (Entries.get? variants variant) := get?_mergeVariants variants others hdo
    have hpayload : ∀ variant p q, Entries.get? others variant = some p →
        Entries.get? listed variant = some q →
        ((∃ r, Entries.get? variants variant = some r ∧ PayloadsOverlap r q) ∨
          PayloadsOverlap p q) →
        PayloadsOverlap (mergePayload union (Entries.get? variants variant) p) q := by
      intro variant p q hp hq hoverlap
      refine payloadsOverlap_mergePayload ?_ hoverlap
      rintro s rfl a b ha rfl
      refine ih s (List.mem_filterMap.2 ⟨_, Entries.mem_of_get? hq, rfl⟩) a b ?_ ?_
      · exact (everywhere_enum_iff.1 hv).2 _ (Entries.mem_of_get? ha) a rfl
      · exact (everywhere_enum_iff.1 ho).2 _ (Entries.mem_of_get? hp) b rfl
    refine ⟨rfl, ?_⟩
    rcases h with ⟨variant, p, q, hp, hq, hoverlap⟩ | ⟨variant, p, q, hp, hq, hoverlap⟩
    · cases hother : Entries.get? others variant with
      | none => exact ⟨variant, p, q, by rw [hget, hother, hp]; rfl, hq, hoverlap⟩
      | some r =>
        exact ⟨variant, _, q, by rw [hget, hother]; rfl, hq,
          hpayload variant r q hother hq (.inl ⟨p, hp, hoverlap⟩)⟩
    · exact ⟨variant, _, q, by rw [hget, hp]; rfl, hq, hpayload variant p q hp hq (.inr hoverlap)⟩
  | oneOf members => exact absurd rfl (hplain members)
  | any => exact absurd rfl hany
  | _ => simp [Overlaps, intersect] at h

end Merged

theorem exists_overlapping_addStruct {name : String} {fields : List (String × Ty)}
    {structs : List (String × List (String × Ty))} (hd : d.Measured)
    (hs : (Ty.struct name fields).Measured) (h : ∀ s ∈ structs, (Ty.struct s.1 s.2).Measured)
    (hoverlap : Overlaps (.struct name fields) d ∨ ∃ s ∈ structs, Overlaps (.struct s.1 s.2) d) :
    ∃ s ∈ addStruct name fields structs, Overlaps (.struct s.1 s.2) d := by
  simp only [addStruct]
  split
  · rename_i hcovered
    rcases hoverlap with hnew | hold
    · obtain ⟨s, hmem, hsub⟩ := List.any_eq_true.1 hcovered
      exact ⟨s, hmem, hnew.mono hs (h s hmem) hd hsub⟩
    · exact hold
  · have hlast : ∀ kept : List (String × List (String × Ty)),
        (name, fields) ∈ kept ++ [(name, fields)] := by simp
    rcases hoverlap with hnew | ⟨s, hmem, hold⟩
    · exact ⟨_, hlast _, hnew⟩
    · by_cases hsub : (Ty.struct s.1 s.2).isSubtype (.struct name fields) = true
      · exact ⟨_, hlast _, hold.mono (h s hmem) hs hd hsub⟩
      · refine ⟨s, List.mem_append_left _ (List.mem_filter.2 ⟨hmem, ?_⟩), hold⟩
        simpa using hsub

theorem measured_add (hg : g.Holds MeasuredLayer NumericSet.Fitted) (ht : t.Measured) :
    (add union g t).Holds MeasuredLayer NumericSet.Fitted :=
  holds_add kept_measuredLayer (fun _ _ => everywhere_union kept_measuredLayer) hg ht

theorem measured_foldl_add (hg : g.Holds MeasuredLayer NumericSet.Fitted)
    (h : ∀ t ∈ types, t.Measured) :
    (types.foldl (add union) g).Holds MeasuredLayer NumericSet.Fitted :=
  List.foldlRecOn types _ hg fun _ hg t ht => measured_add hg (h t ht)

/-- Something has been gathered that the type overlaps and that is not left out in the end. -/
def Overlapping (g : Gathered) (d : Ty) : Prop :=
  ∃ s, g.Recorded s ∧ (∀ set, s = .numeric set → set.isEmpty = false) ∧ Overlaps s d

/-- Adding a type leaves alone what has been gathered of other sorts. -/
theorem recorded_add {join : Ty → Ty → Ty} {s : Ty} (h : g.Recorded s)
    (hsort : s.ctorIdx ≠ t.ctorIdx) : (add join g t).Recorded s := by
  cases t with
  | stringLiteral content =>
    simp only [add]
    split
    · exact h
    · cases s <;> first | exact h | exact absurd rfl hsort
  | _ => cases s <;> first | exact h | exact absurd rfl hsort

section Step
variable (hd : d.Measured) (hplain : d.Plain) (hany : d ≠ .any)
  (ih : ∀ s ∈ d.parts, ∀ a b, a.Measured → b.Measured → Overlaps a s ∨ Overlaps b s →
    Overlaps (union a b) s)
include hd hplain hany ih

theorem overlapping_add (hg : g.Holds MeasuredLayer NumericSet.Fitted)
    (ht : t.Measured) (hpt : t.Plain) (h : g.Overlapping d ∨ Overlaps t d) :
    (add union g t).Overlapping d := by
  cases t with
  | oneOf members => exact absurd rfl (hpt members)
  | never => exact h.resolve_right not_never_overlaps
  | any | number | string =>
    rcases h with ⟨s, hs, hfilled, hoverlap⟩ | hoverlap
    · refine ⟨s, ?_, hfilled, hoverlap⟩
      cases s <;> first | exact hs | rfl
    · exact ⟨_, by exact rfl, by simp, hoverlap⟩
  | stringLiteral content =>
    simp only [add]
    split
    · rename_i hmem
      exact h.elim id fun hoverlap =>
        ⟨.stringLiteral content, List.contains_iff_mem.1 hmem, by simp, hoverlap⟩
    · rcases h with ⟨s, hs, hfilled, hoverlap⟩ | hoverlap
      · refine ⟨s, ?_, hfilled, hoverlap⟩
        cases s with
        | stringLiteral => exact List.mem_append_left _ hs
        | _ => exact hs
      · exact ⟨.stringLiteral content, by simp [Recorded], by simp, hoverlap⟩
  | numeric set =>
    have hgathered : (∃ old, g.numeric = some old ∧ Overlaps (.numeric old) d) ∨
        Overlaps (.numeric set) d → (add union g (.numeric set)).Overlapping d := by
      intro h
      refine ⟨.numeric (g.numeric.elim set (·.union set)), rfl, ?_,
        overlaps_elim_union hd hplain hany (fun s hs => (hg.numeric s hs).sound)
          ht.here.2.2.sound h⟩
      rintro _ ⟨⟩
      exact isEmpty_elim_union (fun s hs => (hg.numeric s hs).solid) ht.here.2.2.solid
        (.inr ht.here.1.2.1)
    rcases h with ⟨s, hs, hfilled, hoverlap⟩ | hoverlap
    · cases s with
      | numeric old => exact hgathered (.inl ⟨old, hs, hoverlap⟩)
      | _ => exact ⟨_, recorded_add hs (Nat.ne_of_beq_eq_false rfl), hfilled, hoverlap⟩
    · exact hgathered (.inr hoverlap)
  | enum name variants =>
    have hgathered :
        Overlaps (.enum name variants) d ∨ (∃ e ∈ g.enums, Overlaps (.enum e.1 e.2) d) →
          (add union g (.enum name variants)).Overlapping d := by
      intro h
      obtain ⟨e, he, hoverlap⟩ := exists_addEnum (P := fun e => Overlaps (.enum e.1 e.2) d)
        (fun _ hpresent => overlaps_mergeVariants hd hplain hany ih (hg.enums _ hpresent) ht) h
      exact ⟨.enum e.1 e.2, he, by simp, hoverlap⟩
    rcases h with ⟨s, hs, hfilled, hoverlap⟩ | hoverlap
    · cases s with
      | enum other present => exact hgathered (.inr ⟨_, hs, hoverlap⟩)
      | _ => exact ⟨_, recorded_add hs (Nat.ne_of_beq_eq_false rfl), hfilled, hoverlap⟩
    · exact hgathered (.inl hoverlap)
  | struct name fields =>
    have hgathered : Overlaps (.struct name fields) d ∨
        (∃ s ∈ g.structs, Overlaps (.struct s.1 s.2) d) →
        (add union g (.struct name fields)).Overlapping d := by
      intro h
      obtain ⟨s, hs, hoverlap⟩ := exists_overlapping_addStruct hd ht hg.structs h
      exact ⟨.struct s.1 s.2, hs, by simp, hoverlap⟩
    rcases h with ⟨s, hs, hfilled, hoverlap⟩ | hoverlap
    · cases s with
      | struct other present => exact hgathered (.inr ⟨_, hs, hoverlap⟩)
      | _ => exact ⟨_, recorded_add hs (Nat.ne_of_beq_eq_false rfl), hfilled, hoverlap⟩
    · exact hgathered (.inl hoverlap)

end Step

theorem overlapping_foldl_add {types : List Ty} (hd : d.Measured) (hplain : d.Plain)
    (hany : d ≠ .any) (ih : ∀ s ∈ d.parts, ∀ a b, a.Measured → b.Measured →
      Overlaps a s ∨ Overlaps b s → Overlaps (union a b) s)
    (hg : g.Holds MeasuredLayer NumericSet.Fitted)
    (htypes : ∀ t ∈ types, t.Measured ∧ t.Plain)
    (h : g.Overlapping d ∨ ∃ t ∈ types, Overlaps t d) :
    (types.foldl (add union) g).Overlapping d := by
  induction types generalizing g with
  | nil => simpa using h
  | cons t types ihtypes =>
    obtain ⟨⟨ht, hpt⟩, htypes⟩ := List.forall_mem_cons.1 htypes
    rw [List.exists_mem_cons_iff, ← or_assoc] at h
    rw [List.foldl_cons]
    exact ihtypes (measured_add hg ht) htypes
      (h.imp_left (overlapping_add hd hplain hany ih hg ht hpt))

/-- What is recorded shows among the members, or is covered by one of them. -/
theorem Overlapping.memberList (h : g.Overlapping d) (hplain : d.Plain) (hany : g.any = false)
    (hlisted : ∀ e ∈ g.enums, e.2 ≠ []) : ∃ s ∈ g.memberList, Overlaps s d := by
  have hmem : ∀ s, s ∈ g.numericMembers ∨
      s ∈ (if g.string then [.string] else g.literals.map .stringLiteral : List Ty) ∨
      s ∈ (g.enums.filter (!·.2.isEmpty)).map (fun e => Ty.enum e.1 e.2) ∨
      s ∈ g.structs.map (fun s => Ty.struct s.1 s.2) → s ∈ g.memberList := by
    intro s hs
    simpa [Gathered.memberList, or_assoc] using hs
  obtain ⟨s, hs, hfilled, hoverlap⟩ := h
  cases s with
  | any => cases hany.symm.trans hs
  | never | oneOf => cases hs
  | number =>
    have hnumber : g.number = true := hs
    exact ⟨.number, hmem _ (.inl (by simp [numericMembers, hnumber])), hoverlap⟩
  | numeric set =>
    by_cases hnumber : g.number = true
    · exact ⟨.number, hmem _ (.inl (by simp [numericMembers, hnumber])),
        number_overlaps hplain hoverlap⟩
    · have hset : g.numeric = some set := hs
      rcases ofNumericSet_cases set with hof | hof | ⟨hof, -⟩
      · rw [ofNumericSet_eq_never_iff, hfilled set rfl] at hof
        cases hof
      · exact ⟨.number, hmem _ (.inl (by simp [numericMembers, hnumber, hset, hof])),
          number_overlaps hplain hoverlap⟩
      · exact ⟨.numeric set, hmem _ (.inl (by simp [numericMembers, hnumber, hset, hof])), hoverlap⟩
  | string =>
    have hstring : g.string = true := hs
    exact ⟨.string, hmem _ (.inr (.inl (by simp [hstring]))), hoverlap⟩
  | stringLiteral content =>
    by_cases hstring : g.string = true
    · exact ⟨.string, hmem _ (.inr (.inl (by simp [hstring]))), string_overlaps hplain hoverlap⟩
    · have hcontent : content ∈ g.literals := hs
      exact ⟨_, hmem _ (.inr (.inl (by simp [hstring, hcontent]))), hoverlap⟩
  | enum name variants =>
    have hkept : (name, variants) ∈ g.enums.filter (!·.2.isEmpty) :=
      List.mem_filter.2 ⟨hs, by simpa using hlisted _ hs⟩
    exact ⟨_, hmem _ (.inr (.inr (.inl (List.mem_map.2 ⟨_, hkept, rfl⟩)))), hoverlap⟩
  | struct name fields =>
    exact ⟨_, hmem _ (.inr (.inr (.inr (List.mem_map.2 ⟨_, hs, rfl⟩)))), hoverlap⟩

theorem Overlapping.build (h : g.Overlapping d) (hd : d.Measured) (hplain : d.Plain)
    (hg : g.Holds MeasuredLayer NumericSet.Fitted) (hdistinct : g.Distinct) :
    Overlaps g.build d := by
  have hbuild : g.build.Measured := hg.build kept_measuredLayer hdistinct
  rcases build_cases g with ⟨-, hb⟩ | ⟨hany, hcases⟩
  · obtain ⟨s, -, -, hoverlap⟩ := h
    rw [hb, any_overlaps]
    rintro rfl
    exact not_overlaps_never hoverlap
  · obtain ⟨s, hs, hoverlap⟩ := h.memberList hplain hany fun e he => (hg.enums e he).here.2.1
    rcases hcases with ⟨hnil, -⟩ | ⟨only, honly, hb⟩ | ⟨-, hb⟩
    · rw [hnil] at hs
      cases hs
    · rw [honly, List.mem_singleton] at hs
      rwa [hb, ← hs]
    · rw [hb] at hbuild ⊢
      exact (oneOf_overlaps_iff hbuild.orderly hd.orderly).2 ⟨s, hs, hoverlap⟩

end Gathered

theorem Measured.tidy (h : t.Measured) : t.Tidy := by
  induction h with
  | @intro t here _ ih =>
    refine .intro ?_ ih
    cases t with
    | oneOf members => exact here.1
    | _ => trivial

theorem Measured.flatten (h : t.Measured) : ∀ s ∈ flatten t, s.Measured ∧ s.Plain := by
  rw [h.tidy.flatten]
  intro s hs
  refine ⟨h.of_mem_members hs, ?_⟩
  cases t with
  | oneOf members => exact (h.here.1.2.single s hs).plain
  | _ => exact List.mem_singleton.1 hs ▸ (by simp [Plain])

theorem Overlaps.flatten (ht : t.Measured) (hd : d.Measured) (h : Overlaps t d) :
    ∃ s ∈ flatten t, Overlaps s d := by
  rw [ht.tidy.flatten]
  cases t with
  | oneOf members => exact (oneOf_overlaps_iff ht.orderly hd.orderly).1 h
  | _ => exact ⟨_, List.mem_singleton_self _, h⟩

/-- A union overlaps whatever one of its types does. -/
theorem overlaps_unionAll (hd : d.Measured) (h : ∀ t ∈ types, t.Measured)
    (hoverlap : ∃ t ∈ types, Overlaps t d) : Overlaps (unionAll types) d := by
  induction d using induction_on_parts generalizing types with
  | step d ih =>
    have hunion := measured_unionAll h
    obtain ⟨t, ht, hoverlap⟩ := hoverlap
    by_cases hany : d = .any
    · subst hany
      rw [overlaps_any] at hoverlap ⊢
      exact fun hnever => hoverlap ((unionAll_eq_never_iff (fun t ht => (h t ht).orderly)
        fun t ht => (h t ht).concise).1 hnever t ht)
    by_cases hplain : d.Plain
    · have hflat : ∀ s ∈ flattenAll types, s.Measured ∧ s.Plain := by
        intro s hs
        rw [flattenAll_eq] at hs
        obtain ⟨t, ht, hs⟩ := List.mem_flatMap.1 hs
        exact (h t ht).flatten s hs
      have hsome : ∃ s ∈ flattenAll types, Overlaps s d := by
        obtain ⟨s, hs, hoverlap⟩ := hoverlap.flatten (h t ht) hd
        exact ⟨s, flattenAll_eq types ▸ List.mem_flatMap.2 ⟨t, ht, hs⟩, hoverlap⟩
      have hpair : ∀ s ∈ d.parts, ∀ a b, a.Measured → b.Measured → Overlaps a s ∨ Overlaps b s →
          Overlaps (union a b) s := by
        intro s hs a b ha hb hor
        exact ih s hs (hd.inside s hs) (by simp [ha, hb]) (by simpa using hor)
      rw [unionAll_eq]
      refine (Gathered.overlapping_foldl_add hd hplain hany hpair Gathered.holds_empty hflat
        (.inr hsome)).build hd hplain ?_ (Gathered.distinct_foldl_add _)
      exact Gathered.measured_foldl_add Gathered.holds_empty fun s hs => (hflat s hs).1
    · obtain ⟨members, rfl⟩ := exists_eq_oneOf hplain
      obtain ⟨s, hs, hoverlap⟩ := (overlaps_oneOf_iff (h t ht).orderly hd.orderly).1 hoverlap
      exact (overlaps_oneOf_iff hunion.orderly hd.orderly).2
        ⟨s, hs, ih s hs (hd.inside s hs) h ⟨t, ht, hoverlap⟩⟩

end Unions

end Ty
end TypedFlow
