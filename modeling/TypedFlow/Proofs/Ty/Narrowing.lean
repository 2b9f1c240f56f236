import TypedFlow.Proofs.Ty.Overlap
import TypedFlow.Proofs.Ty.Reduced

/-!
# Narrowed types are subtypes

An intersection is a subtype of each side that has no numeric set with touching real intervals: the
subtype test finds an interval in a single interval of the other side only. A union is a subtype of
such a type if all its types are. Neither needs fields and payload types to be inhabited, so that
both are proved along the types and not from their values.
-/
namespace TypedFlow.Ty

/-- No two real intervals of a numeric set touch. -/
def SpreadLayer : Ty → Prop
  | .numeric set => set.reals.Pairwise Interval.Apart
  | _ => True

abbrev Spread (t : Ty) : Prop := Everywhere SpreadLayer t

section Numbers
variable {a b : NumericSet} {c : Ty}

theorem numeric_isSubtype (ha : a.Fitted) (hb : b.Fitted) (hs : b.reals.Pairwise Interval.Apart)
    (h : ∀ x, a.Mem x → b.Mem x) : isSubtype (.numeric a) (.numeric b) = true := by
  rw [isSubtype]
  exact NumericSet.contains_of_members (hb.tight hs) hb.sound ha.standard.fractional ha.sound h

theorem kind?_eq_of_isSubtype {s t : Ty} {k : Option String} (hs : s.kind? = some k)
    (ht : t.Single) (h : isSubtype s t = true) : t.kind? = some k := by
  cases t with
  | any => exact absurd rfl ht.notAny
  | oneOf members => exact absurd rfl (ht.plain members)
  | _ => cases s <;> simp_all [isSubtype, kind?]

/-- What two types of one kind are subtypes of, one member of it covers both. -/
theorem exists_common_member {s t : Ty} {members : List Ty} {k : Option String}
    (hm : (Ty.oneOf members).Measured) (hs : s.Single) (ht : t.Single) (hks : s.kind? = some k)
    (hkt : t.kind? = some k) (hsub : isSubtype s (.oneOf members) = true)
    (hsub' : isSubtype t (.oneOf members) = true) :
    ∃ m ∈ members, isSubtype s m = true ∧ isSubtype t m = true := by
  have hminimal := hm.here.1.2
  obtain ⟨m, hmem, hsm⟩ := hs.isSubtype_oneOf_iff.1 hsub
  obtain ⟨m', hmem', htm⟩ := ht.isSubtype_oneOf_iff.1 hsub'
  obtain rfl := eq_of_kind hminimal.apart hmem hmem'
    (kind?_eq_of_isSubtype hks (hminimal.single m hmem) hsm)
    (kind?_eq_of_isSubtype hkt (hminimal.single m' hmem') htm)
  exact ⟨m, hmem, hsm, htm⟩

/-- What joins two types of one kind is a subtype of what they are subtypes of, if it is where that
is no union. -/
theorem isSubtype_of_plain {joined s t : Ty} {k : Option String} (hc : c.Measured) (hs : c.Spread)
    (hj : joined.Single) (hss : s.Single) (hst : t.Single) (hks : s.kind? = some k)
    (hkt : t.kind? = some k) (h : isSubtype s c = true) (h' : isSubtype t c = true)
    (hplain : ∀ m : Ty, sizeOf m ≤ sizeOf c → m.Measured → m.Spread → m.Plain →
      isSubtype s m = true → isSubtype t m = true → isSubtype joined m = true) :
    isSubtype joined c = true := by
  by_cases hpc : c.Plain
  · exact hplain c le_rfl hc hs hpc h h'
  · obtain ⟨members, rfl⟩ := exists_eq_oneOf hpc
    obtain ⟨m, hm, hsm, htm⟩ := exists_common_member hc hss hst hks hkt h h'
    have hlt := sizeOf_lt_of_mem_parts (t := .oneOf members) hm
    exact hj.isSubtype_oneOf_iff.2 ⟨m, hm, hplain m hlt.le (hc.inside m hm) (hs.inside m hm)
      (hc.here.1.2.single m hm).plain hsm htm⟩

theorem single_numeric : (Ty.numeric a).Single := ⟨by simp, by simp, by simp [Plain]⟩

theorem numeric_union_isSubtype (hc : c.Measured) (hs : c.Spread) (ha : a.Fitted) (hb : b.Fitted)
    (h : isSubtype (.numeric a) c = true) (h' : isSubtype (.numeric b) c = true) :
    isSubtype (.numeric (a.union b)) c = true := by
  refine isSubtype_of_plain hc hs single_numeric single_numeric single_numeric rfl rfl h h' ?_
  intro m _ hm hsm hpm h h'
  cases m with
  | numeric s =>
    have hfs := hm.here.2.2
    rw [isSubtype] at h h'
    refine numeric_isSubtype (NumericSet.fitted_union ha hb) hfs hsm.here fun x hx => ?_
    rcases (NumericSet.mem_union ha.sound hb.sound).1 hx with hx | hx
    · exact NumericSet.mem_of_contains hfs.sound ha.sound h hx
    · exact NumericSet.mem_of_contains hfs.sound hb.sound h' hx
  | oneOf members => exact absurd rfl (hpm members)
  | _ => simp [isSubtype] at h ⊢

/-- What covers all numbers one by one covers `number`. -/
theorem number_isSubtype (hc : c.Measured) (hs : c.Spread) (ha : a.Fitted)
    (hall : a.isAllReals = true) (h : isSubtype (.numeric a) c = true) :
    isSubtype .number c = true := by
  have hnumber : Ty.number.Single := ⟨by simp, by simp, by simp [Plain]⟩
  refine isSubtype_of_plain hc hs hnumber single_numeric single_numeric rfl rfl h h ?_
  intro m _ hm hsm hpm h _
  cases m with
  | numeric s =>
    have hfs := hm.here.2.2
    rw [isSubtype] at h
    have hmem : ∀ x, s.Mem x := fun x => NumericSet.mem_of_contains hfs.sound ha.sound h
      (NumericSet.mem_of_isAllReals ha.sound hall)
    have hs := NumericSet.isAllReals_of_members (hfs.tight hsm.here) hmem
    rw [hm.here.1.2.2] at hs
    cases hs
  | oneOf members => exact absurd rfl (hpm members)
  | _ => simp [isSubtype] at h ⊢

end Numbers

section Itself
variable {t : Ty}

theorem payloadWithin_self {payload : Option Ty}
    (h : ∀ t, payload = some t → isSubtype t t = true) : payloadWithin payload payload = true := by
  cases payload with
  | none => rfl
  | some t => exact h t rfl

theorem isSubtype_self (h : t.Measured) (hs : t.Spread) : isSubtype t t = true := by
  induction t using induction_on_parts with
  | step t ih =>
    have hinside : ∀ s ∈ t.parts, isSubtype s s = true :=
      fun s hmem => ih s hmem (h.inside s hmem) (hs.inside s hmem)
    cases t with
    | numeric set => exact numeric_isSubtype h.here.2.2 h.here.2.2 hs.here fun _ hx => hx
    | struct name fields =>
      refine isSubtype_struct_iff.2 ⟨rfl, sameShape_of_names rfl, fun e he => ?_⟩
      exact ⟨e.2, Entries.get?_of_mem h.here.1 he, hinside _ (List.mem_map_of_mem he)⟩
    | enum name variants =>
      refine isSubtype_enum_iff.2 ⟨rfl, fun e he => ?_⟩
      exact ⟨e.2, Entries.get?_of_mem h.here.1.nodup he, payloadWithin_self fun t ht =>
        hinside t (List.mem_filterMap.2 ⟨e, he, ht⟩)⟩
    | oneOf members =>
      refine (oneOf_isSubtype_iff (by simp)).2 fun s hmem => ?_
      exact (h.here.1.2.single s hmem).isSubtype_oneOf_iff.2 ⟨s, hmem, hinside s hmem⟩
    | _ => simp [isSubtype]

theorem isSubtype_oneOf_of_mem {a : Ty} {members : List Ty} (ha : a.Measured)
    (hm : (Ty.oneOf members).Measured) (ht : t ∈ members) (h : isSubtype a t = true) :
    isSubtype a (.oneOf members) = true := by
  have hsingle := hm.here.1.2.single t ht
  by_cases hpa : a.Plain
  · by_cases hnever : a = .never
    · exact hnever ▸ never_isSubtype
    · have hany : a ≠ .any := by
        rintro rfl
        exact hsingle.notAny (any_isSubtype_iff.1 h)
      exact Single.isSubtype_oneOf_iff ⟨hany, hnever, hpa⟩ |>.2 ⟨t, ht, h⟩
  · obtain ⟨others, rfl⟩ := exists_eq_oneOf hpa
    refine (oneOf_isSubtype_iff (by simp)).2 fun s hs => ?_
    exact (ha.here.1.2.single s hs).isSubtype_oneOf_iff.2
      ⟨t, ht, (oneOf_isSubtype_iff hsingle.notNever).1 h s hs⟩

end Itself

section Unions
variable {c t : Ty} {types : List Ty}

namespace Gathered
variable {g : Gathered} {join : Ty → Ty → Ty}

theorem mem_addEnum {name : String} {variants : List (String × Option Ty)}
    {enums : List (String × List (String × Option Ty))} {e : String × List (String × Option Ty)}
    (h : e ∈ addEnum join name variants enums) : e ∈ enums ∨ e = (name, variants) ∨
      ∃ present, (name, present) ∈ enums ∧ e = (name, mergeVariants join present variants) := by
  induction enums with
  | nil => exact .inr (.inl (List.mem_singleton.1 h))
  | cons entry enums ih =>
    obtain ⟨other, present⟩ := entry
    by_cases hname : other = name
    · subst hname
      rw [addEnum, if_pos (beq_self_eq_true other)] at h
      rcases List.mem_cons.1 h with rfl | h
      · exact .inr (.inr ⟨present, List.mem_cons_self, rfl⟩)
      · exact .inl (List.mem_cons_of_mem _ h)
    · rw [addEnum, if_neg (by simpa using hname)] at h
      rcases List.mem_cons.1 h with rfl | h
      · exact .inl List.mem_cons_self
      · rcases ih h with h | h | ⟨p, hp, rfl⟩
        · exact .inl (List.mem_cons_of_mem _ h)
        · exact .inr (.inl h)
        · exact .inr (.inr ⟨p, List.mem_cons_of_mem _ hp, rfl⟩)

/-- Everything that has been gathered is a subtype. -/
def Below (g : Gathered) (c : Ty) : Prop := ∀ s, g.Recorded s → isSubtype s c = true

theorem payloadWithin_mergePayload {present : Option (Option Ty)} {payload q : Option Ty}
    (ih : ∀ s, q = some s → ∀ a b, present = some (some a) → payload = some b →
      isSubtype a s = true → isSubtype b s = true → isSubtype (union a b) s = true)
    (hp : ∀ p, present = some p → payloadWithin p q = true) (h : payloadWithin payload q = true) :
    payloadWithin (mergePayload union present payload) q = true := by
  cases q with
  | none => cases mergePayload union present payload <;> rfl
  | some s =>
    cases present with
    | none => exact h
    | some present =>
      cases present with
      | none => cases hp none rfl
      | some a =>
        cases payload with
        | none => cases h
        | some b => exact ih s rfl a b rfl rfl (hp (some a) rfl) h

theorem mergeVariants_isSubtype {name name' : String}
    {variants others listed : List (String × Option Ty)} (hv : (Ty.enum name variants).Measured)
    (ho : (Ty.enum name others).Measured)
    (ih : ∀ e ∈ listed, ∀ s, e.2 = some s → ∀ a b, a.Measured → b.Measured →
      isSubtype a s = true → isSubtype b s = true → isSubtype (union a b) s = true)
    (h : isSubtype (.enum name variants) (.enum name' listed) = true)
    (h' : isSubtype (.enum name others) (.enum name' listed) = true) :
    isSubtype (.enum name (mergeVariants union variants others)) (.enum name' listed) = true := by
  obtain ⟨rfl, hwithin⟩ := isSubtype_enum_iff.1 h
  obtain ⟨-, hwithin'⟩ := isSubtype_enum_iff.1 h'
  refine isSubtype_enum_iff.2 ⟨rfl, fun e he => ?_⟩
  have hget := Entries.get?_of_mem (ascending_mergeVariants hv.here.1).nodup he
  rw [get?_mergeVariants variants others ho.here.1.nodup] at hget
  cases hother : Entries.get? others e.1 with
  | none =>
    rw [hother] at hget
    exact hwithin _ (Entries.mem_of_get? hget)
  | some payload =>
    rw [hother] at hget
    have hmem := Entries.mem_of_get? hother
    obtain ⟨q, hq, hpayload⟩ := hwithin' _ hmem
    refine ⟨q, hq, ?_⟩
    rw [← Option.some.inj hget]
    refine payloadWithin_mergePayload ?_ (fun p hp => ?_) hpayload
    · rintro s rfl a b ha rfl
      exact ih _ (Entries.mem_of_get? hq) s rfl a b
        ((everywhere_enum_iff.1 hv).2 _ (Entries.mem_of_get? ha) a rfl)
        ((everywhere_enum_iff.1 ho).2 _ hmem b rfl)
    · obtain ⟨q', hq', hpresent⟩ := hwithin _ (Entries.mem_of_get? hp)
      obtain rfl := Option.some.inj (hq'.symm.trans hq)
      exact hpresent

/-- What holds for smaller types: a union of subtypes is a subtype. -/
def JoinsBelow (n : ℕ) : Prop :=
  ∀ c : Ty, sizeOf c < n → c.Measured → c.Spread → ∀ a b, a.Measured → b.Measured →
    isSubtype a c = true → isSubtype b c = true → isSubtype (union a b) c = true

theorem enum_union_isSubtype {name : String} {variants others : List (String × Option Ty)}
    (ih : JoinsBelow (sizeOf c)) (hc : c.Measured) (hs : c.Spread)
    (hv : (Ty.enum name variants).Measured) (ho : (Ty.enum name others).Measured)
    (h : isSubtype (.enum name variants) c = true) (h' : isSubtype (.enum name others) c = true) :
    isSubtype (.enum name (mergeVariants union variants others)) c = true := by
  have hsingle : ∀ listed, (Ty.enum name listed).Single :=
    fun listed => ⟨by simp, by simp, by simp [Plain]⟩
  refine isSubtype_of_plain hc hs (hsingle _) (hsingle _) (hsingle _) rfl rfl h h' ?_
  intro m hle hm hsm hpm h h'
  cases m with
  | enum name' listed =>
    refine mergeVariants_isSubtype hv ho (fun e he s hs => ?_) h h'
    have hpart : s ∈ (Ty.enum name' listed).parts := List.mem_filterMap.2 ⟨e, he, hs⟩
    exact ih s ((sizeOf_lt_of_mem_parts hpart).trans_le hle) (hm.inside s hpart)
      (hsm.inside s hpart)
  | oneOf members => exact absurd rfl (hpm members)
  | _ => simp [isSubtype] at h ⊢

theorem below_add (hc : c.Measured) (hs : c.Spread) (ih : JoinsBelow (sizeOf c))
    (hg : g.Holds MeasuredLayer NumericSet.Fitted) (ht : t.Measured) (hbelow : g.Below c)
    (h : isSubtype t c = true) : (add union g t).Below c := by
  intro s hrecorded
  cases t with
  | never | oneOf => exact hbelow s hrecorded
  | any =>
    cases s with
    | any => exact h
    | _ => exact hbelow _ hrecorded
  | number =>
    cases s with
    | number => exact h
    | _ => exact hbelow _ hrecorded
  | string =>
    cases s with
    | string => exact h
    | _ => exact hbelow _ hrecorded
  | stringLiteral content =>
    simp only [add] at hrecorded
    split at hrecorded
    · exact hbelow s hrecorded
    · cases s with
      | stringLiteral other =>
        rcases List.mem_append.1 hrecorded with hold | hnew
        · exact hbelow (.stringLiteral other) hold
        · rwa [List.mem_singleton.1 hnew]
      | _ => exact hbelow _ hrecorded
  | numeric set =>
    cases s with
    | numeric united =>
      have hunited : some (g.numeric.elim set (·.union set)) = some united := hrecorded
      cases hpresent : g.numeric with
      | none =>
        rw [hpresent] at hunited
        exact Option.some.inj hunited ▸ h
      | some present =>
        rw [hpresent] at hunited
        exact Option.some.inj hunited ▸ numeric_union_isSubtype hc hs (hg.numeric present hpresent)
          ht.here.2.2 (hbelow (.numeric present) hpresent) h
    | _ => exact hbelow _ hrecorded
  | enum name variants =>
    cases s with
    | enum other merged =>
      rcases mem_addEnum hrecorded with hold | heq | ⟨present, hpresent, heq⟩
      · exact hbelow (.enum other merged) hold
      · cases heq
        exact h
      · cases heq
        exact enum_union_isSubtype ih hc hs (hg.enums _ hpresent) ht
          (hbelow (.enum name present) hpresent) h
    | _ => exact hbelow _ hrecorded
  | struct name fields =>
    cases s with
    | struct other slots =>
      rcases mem_addStruct hrecorded with heq | hold
      · cases heq
        exact h
      · exact hbelow (.struct other slots) hold
    | _ => exact hbelow _ hrecorded

theorem below_foldl_add (hc : c.Measured) (hs : c.Spread) (ih : JoinsBelow (sizeOf c))
    (hg : g.Holds MeasuredLayer NumericSet.Fitted) (hbelow : g.Below c)
    (htypes : ∀ t ∈ types, t.Measured ∧ isSubtype t c = true) :
    (types.foldl (add union) g).Below c := by
  induction types generalizing g with
  | nil => exact hbelow
  | cons t types ihtypes =>
    obtain ⟨⟨ht, hsub⟩, htypes⟩ := List.forall_mem_cons.1 htypes
    exact ihtypes (measured_add hg ht) (below_add hc hs ih hg ht hbelow hsub) htypes

theorem Below.numericMembers (h : g.Below c) (hc : c.Measured) (hs : c.Spread)
    (hg : ∀ set, g.numeric = some set → set.Fitted) :
    ∀ s ∈ g.numericMembers, isSubtype s c = true := by
  by_cases hnumber : g.number = true
  · simpa [Gathered.numericMembers, hnumber] using h .number hnumber
  · cases hset : g.numeric with
    | none => simp [Gathered.numericMembers, hnumber, hset]
    | some set =>
      have hsub := h (.numeric set) hset
      by_cases hempty : set.isEmpty = true
      · simp [Gathered.numericMembers, hnumber, hset, ofNumericSet, hempty]
      · by_cases hall : set.isAllReals = true
        · simpa [Gathered.numericMembers, hnumber, hset, ofNumericSet, hempty, hall] using
            number_isSubtype hc hs (hg set hset) hall hsub
        · simpa [Gathered.numericMembers, hnumber, hset, ofNumericSet, hempty, hall] using hsub

theorem Below.memberList (h : g.Below c) (hc : c.Measured) (hs : c.Spread)
    (hg : ∀ set, g.numeric = some set → set.Fitted) : ∀ s ∈ g.memberList, isSubtype s c = true := by
  intro s hmem
  simp only [Gathered.memberList] at hmem
  rcases List.mem_append.1 hmem with hmem | hmem
  · rcases List.mem_append.1 hmem with hmem | hmem
    · rcases List.mem_append.1 hmem with hmem | hmem
      · exact h.numericMembers hc hs hg s hmem
      · split at hmem
        · rename_i hstring
          rw [List.mem_singleton.1 hmem]
          exact h .string hstring
        · obtain ⟨content, hcontent, rfl⟩ := List.mem_map.1 hmem
          exact h (.stringLiteral content) hcontent
    · obtain ⟨e, he, rfl⟩ := List.mem_map.1 hmem
      exact h (.enum e.1 e.2) (List.mem_filter.1 he).1
  · obtain ⟨s, hs, rfl⟩ := List.mem_map.1 hmem
    exact h (.struct s.1 s.2) hs

theorem Below.build (h : g.Below c) (hc : c.Measured) (hs : c.Spread)
    (hg : ∀ set, g.numeric = some set → set.Fitted) (hd : g.Distinct) :
    isSubtype g.build c = true := by
  have hmembers := h.memberList hc hs hg
  rcases build_cases g with ⟨hany, hb⟩ | ⟨-, ⟨-, hb⟩ | ⟨only, honly, hb⟩ | ⟨hlength, hb⟩⟩
  · exact hb ▸ h .any hany
  · exact hb ▸ never_isSubtype
  · exact hb ▸ hmembers only (by simp [honly])
  · have hne : c ≠ .never := by
      rintro rfl
      obtain ⟨s, hs⟩ := List.exists_mem_of_length_pos (Nat.lt_of_lt_of_le Nat.zero_lt_two hlength)
      exact ((minimal_memberList hd).single s hs).notNever (isSubtype_never_iff.1 (hmembers s hs))
    rw [hb]
    exact (oneOf_isSubtype_iff hne).2 hmembers

end Gathered

theorem flatten_isSubtype (ht : t.Measured) (h : isSubtype t c = true) :
    ∀ s ∈ flatten t, isSubtype s c = true := by
  rw [ht.tidy.flatten]
  cases t with
  | oneOf members =>
    have hne : c ≠ .never := by
      rintro rfl
      cases isSubtype_never_iff.1 h
    exact (oneOf_isSubtype_iff hne).1 h
  | _ => exact List.forall_mem_singleton.2 h

/-- A union of subtypes is a subtype. -/
theorem unionAll_isSubtype (hc : c.Measured) (hs : c.Spread) (htypes : ∀ t ∈ types, t.Measured)
    (h : ∀ t ∈ types, isSubtype t c = true) : isSubtype (unionAll types) c = true := by
  induction hn : sizeOf c using Nat.strong_induction_on generalizing c types with
  | _ n ih =>
    subst hn
    have hbelow : Gathered.JoinsBelow (sizeOf c) := fun c' hlt hc hs a b ha hb hac hbc =>
      ih _ hlt hc hs (by simp [ha, hb]) (by simp [hac, hbc]) rfl
    have hflat : ∀ s ∈ flattenAll types, s.Measured ∧ isSubtype s c = true := by
      intro s hmem
      rw [flattenAll_eq] at hmem
      obtain ⟨t, ht, hmem⟩ := List.mem_flatMap.1 hmem
      exact ⟨((htypes t ht).flatten s hmem).1, flatten_isSubtype (htypes t ht) (h t ht) s hmem⟩
    have hholds := Gathered.measured_foldl_add Gathered.holds_empty fun s hs => (hflat s hs).1
    rw [unionAll_eq]
    refine (Gathered.below_foldl_add hc hs hbelow Gathered.holds_empty ?_ hflat).build hc hs
      hholds.numeric (Gathered.distinct_foldl_add _)
    exact fun s hrecorded => absurd (Gathered.exactly_empty.recorded s hrecorded) List.not_mem_nil

end Unions

section Intersections
variable {a b : Ty}

theorem sameShape_congr {fields common others : List (String × Ty)}
    (hnames : Entries.names common = Entries.names fields) :
    sameShape common others = sameShape fields others := by
  have hlength : common.length = fields.length := by
    simpa [Entries.names] using congrArg List.length hnames
  have hall : ∀ entries : List (String × Ty), entries.all (fun e => Entries.has others e.1) =
      (Entries.names entries).all (Entries.has others) := by
    intro entries
    simp [Entries.names, Function.comp_def]
  unfold sameShape
  rw [hall, hall, hnames, hlength]

theorem ofNumericSet_isSubtype {s t : NumericSet} (hs : s.Fitted) (ht : (Ty.numeric t).Measured)
    (hspread : (Ty.numeric t).Spread) (h : ∀ x, s.Mem x → t.Mem x) :
    isSubtype (ofNumericSet s) (.numeric t) = true := by
  have hsub := numeric_isSubtype hs ht.here.2.2 hspread.here h
  simp only [ofNumericSet]
  split
  · exact never_isSubtype
  · split
    · rename_i hall
      exact number_isSubtype ht hspread hs hall hsub
    · exact hsub

theorem exists_of_mem_intersectVariants {variants listed : List (String × Option Ty)}
    (hd : (Entries.names variants).Nodup)
    {e : String × Option Ty} (he : e ∈ intersectVariants variants listed) :
    ∃ p q, Entries.get? variants e.1 = some p ∧ Entries.get? listed e.1 = some q ∧
      commonPayload p q = some e.2 := by
  rw [intersectVariants_eq] at he
  obtain ⟨f, hf, hentry⟩ := List.mem_filterMap.1 he
  obtain ⟨payload, hcommon, rfl⟩ := Option.map_eq_some_iff.1 hentry
  obtain ⟨q, hq, hcommon⟩ := Option.bind_eq_some_iff.1 hcommon
  exact ⟨f.2, q, Entries.get?_of_mem hd hf, hq, hcommon⟩

theorem payloadWithin_common {p q r : Option Ty} (h : commonPayload p q = some r) :
    ((∀ s, p = some s → isSubtype s s = true) →
      (∀ s t, p = some s → q = some t → isSubtype (intersect s t) s = true) →
      payloadWithin r p = true) ∧
    ((∀ t, q = some t → isSubtype t t = true) →
      (∀ s t, p = some s → q = some t → isSubtype (intersect s t) t = true) →
      payloadWithin r q = true) := by
  cases q with
  | none =>
    cases h
    exact ⟨fun hself _ => payloadWithin_self hself, fun _ _ => by cases p <;> rfl⟩
  | some t =>
    cases p with
    | none =>
      cases h
      exact ⟨fun _ _ => rfl, fun hself _ => hself t rfl⟩
    | some s =>
      rw [commonPayload_some] at h
      split at h
      · cases h
      · cases h
        exact ⟨fun _ hsub => hsub s t rfl rfl, fun _ hsub => hsub s t rfl rfl⟩

/-- What holds for smaller types: an intersection is a subtype of the sides that are spread. -/
def MeetsBelow (n : ℕ) : Prop :=
  ∀ a b : Ty, sizeOf a + sizeOf b < n → a.Measured → b.Measured →
    (a.Spread → isSubtype (intersect a b) a = true) ∧
      (b.Spread → isSubtype (intersect a b) b = true)

theorem members_isSubtype {members : List Ty}
    (ih : MeetsBelow (sizeOf (Ty.oneOf members) + sizeOf b))
    (hm : (Ty.oneOf members).Measured) (hb : b.Measured) :
    ((Ty.oneOf members).Spread →
      isSubtype (unionAll (intersectAll members b)) (.oneOf members) = true) ∧
    (b.Spread → isSubtype (unionAll (intersectAll members b)) b = true) := by
  have hmeasured : ∀ t ∈ intersectAll members b, t.Measured := by
    rw [intersectAll_eq]
    exact List.forall_mem_map.2 fun t ht => measured_intersect (hm.inside t ht) hb
  have hboth : ∀ t ∈ members, (t.Spread → isSubtype (intersect t b) t = true) ∧
      (b.Spread → isSubtype (intersect t b) b = true) := fun t ht =>
    ih t b (Nat.add_lt_add_right (sizeOf_lt_of_mem_parts (t := .oneOf members) ht) _)
      (hm.inside t ht) hb
  constructor
  · intro hs
    refine unionAll_isSubtype hm hs hmeasured ?_
    rw [intersectAll_eq]
    exact List.forall_mem_map.2 fun t ht => isSubtype_oneOf_of_mem
      (measured_intersect (hm.inside t ht) hb) hm ht ((hboth t ht).1 (hs.inside t ht))
  · intro hs
    refine unionAll_isSubtype hb hs hmeasured ?_
    rw [intersectAll_eq]
    exact List.forall_mem_map.2 fun t ht => (hboth t ht).2 hs

theorem struct_common_isSubtype {name : String} {fields others common : List (String × Ty)}
    (ih : MeetsBelow (sizeOf (Ty.struct name fields) + sizeOf (Ty.struct name others)))
    (ha : (Ty.struct name fields).Measured) (hb : (Ty.struct name others).Measured)
    (hshape : sameShape fields others = true) (h : intersectFields fields others = some common) :
    ((Ty.struct name fields).Spread →
      isSubtype (.struct name common) (.struct name fields) = true) ∧
    ((Ty.struct name others).Spread →
      isSubtype (.struct name common) (.struct name others) = true) := by
  have hnames := (intersectFields_eq_some h).1
  have hboth : ∀ e ∈ common, ∃ t t', (e.1, t) ∈ fields ∧ (e.1, t') ∈ others ∧
      (t.Spread → isSubtype e.2 t = true) ∧ (t'.Spread → isSubtype e.2 t' = true) := by
    intro e he
    obtain ⟨t, t', ht, ht', heq⟩ := exists_of_mem_intersectFields h he
    have hpart : t ∈ (Ty.struct name fields).parts := List.mem_map_of_mem (f := (·.2)) ht
    have hpart' : t' ∈ (Ty.struct name others).parts := List.mem_map_of_mem (f := (·.2)) ht'
    exact ⟨t, t', ht, ht', heq ▸ ih t t'
      (Nat.add_lt_add (sizeOf_lt_of_mem_parts hpart) (sizeOf_lt_of_mem_parts hpart'))
      (ha.inside t hpart) (hb.inside t' hpart')⟩
  constructor
  · intro hs
    refine isSubtype_struct_iff.2 ⟨rfl, sameShape_of_names hnames, fun e he => ?_⟩
    obtain ⟨t, -, ht, -, hsub, -⟩ := hboth e he
    exact ⟨t, Entries.get?_of_mem ha.here.1 ht, hsub ((everywhere_struct_iff.1 hs).2 _ ht)⟩
  · intro hs
    refine isSubtype_struct_iff.2 ⟨rfl, (sameShape_congr hnames).trans hshape, fun e he => ?_⟩
    obtain ⟨-, t', -, ht', -, hsub⟩ := hboth e he
    exact ⟨t', Entries.get?_of_mem hb.here.1 ht', hsub ((everywhere_struct_iff.1 hs).2 _ ht')⟩

theorem enum_common_isSubtype {name : String} {variants listed : List (String × Option Ty)}
    (ih : MeetsBelow (sizeOf (Ty.enum name variants) + sizeOf (Ty.enum name listed)))
    (ha : (Ty.enum name variants).Measured) (hb : (Ty.enum name listed).Measured) :
    ((Ty.enum name variants).Spread →
      isSubtype (.enum name (intersectVariants variants listed)) (.enum name variants) = true) ∧
    ((Ty.enum name listed).Spread →
      isSubtype (.enum name (intersectVariants variants listed)) (.enum name listed) = true) := by
  have hpart : ∀ {entries : List (String × Option Ty)} {variant s},
      Entries.get? entries variant = some (some s) → s ∈ (Ty.enum name entries).parts :=
    fun hget => List.mem_filterMap.2 ⟨_, Entries.mem_of_get? hget, rfl⟩
  have hmeet : ∀ {variant s t}, Entries.get? variants variant = some (some s) →
      Entries.get? listed variant = some (some t) →
        (s.Spread → isSubtype (intersect s t) s = true) ∧
          (t.Spread → isSubtype (intersect s t) t = true) := fun hs ht =>
    ih _ _ (Nat.add_lt_add (sizeOf_lt_of_mem_parts (hpart hs)) (sizeOf_lt_of_mem_parts (hpart ht)))
      (ha.inside _ (hpart hs)) (hb.inside _ (hpart ht))
  constructor
  · intro hs
    refine isSubtype_enum_iff.2 ⟨rfl, fun e he => ?_⟩
    obtain ⟨p, q, hp, hq, hcommon⟩ := exists_of_mem_intersectVariants ha.here.1.nodup he
    refine ⟨p, hp, (payloadWithin_common hcommon).1 ?_ ?_⟩
    · rintro s rfl
      exact isSubtype_self (ha.inside s (hpart hp)) (hs.inside s (hpart hp))
    · rintro s t rfl rfl
      exact (hmeet hp hq).1 (hs.inside s (hpart hp))
  · intro hs
    refine isSubtype_enum_iff.2 ⟨rfl, fun e he => ?_⟩
    obtain ⟨p, q, hp, hq, hcommon⟩ := exists_of_mem_intersectVariants ha.here.1.nodup he
    refine ⟨q, hq, (payloadWithin_common hcommon).2 ?_ ?_⟩
    · rintro t rfl
      exact isSubtype_self (hb.inside t (hpart hq)) (hs.inside t (hpart hq))
    · rintro s t rfl rfl
      exact (hmeet hp hq).2 (hs.inside t (hpart hq))

theorem intersect_isSubtype (ha : a.Measured) (hb : b.Measured) :
    (a.Spread → isSubtype (intersect a b) a = true) ∧
      (b.Spread → isSubtype (intersect a b) b = true) := by
  induction hn : sizeOf a + sizeOf b using Nat.strong_induction_on generalizing a b with
  | _ n ih =>
    subst hn
    have hbelow : MeetsBelow (sizeOf a + sizeOf b) := fun a' b' hlt ha hb => ih _ hlt ha hb rfl
    have hcases := intersection a b
    generalize intersect a b = c at hcases
    cases hcases with
    | neverLeft | neverRight | literals | structEmpty | structs | enumEmpty | enums | apart =>
      exact ⟨fun _ => never_isSubtype, fun _ => never_isSubtype⟩
    | anyLeft => exact ⟨fun _ => isSubtype_any, isSubtype_self hb⟩
    | anyRight => exact ⟨isSubtype_self ha, fun _ => isSubtype_any⟩
    | unionLeft => exact members_isSubtype hbelow ha hb
    | unionRight => exact (members_isSubtype (by rwa [Nat.add_comm]) hb ha).symm
    | number | string | literal => exact ⟨isSubtype_self ha, isSubtype_self ha⟩
    | numberNumeric | stringLiteral => exact ⟨fun _ => by rw [isSubtype], isSubtype_self hb⟩
    | numericNumber | literalString => exact ⟨isSubtype_self ha, fun _ => by rw [isSubtype]⟩
    | numeric set other =>
      have hs := ha.here.2.2
      have ho := hb.here.2.2
      have hmem := (NumericSet.intersect_spec hs.sound ho.sound).2
      exact ⟨fun hspread => ofNumericSet_isSubtype (NumericSet.fitted_intersect hs ho) ha hspread
          fun x hx => ((hmem x).1 hx).1,
        fun hspread => ofNumericSet_isSubtype (NumericSet.fitted_intersect hs ho) hb hspread
          fun x hx => ((hmem x).1 hx).2⟩
    | struct shape left => exact struct_common_isSubtype hbelow ha hb shape left
    | enum => exact enum_common_isSubtype hbelow ha hb

end Intersections

end TypedFlow.Ty
