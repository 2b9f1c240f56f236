import TypedFlow.Proofs.NumericSet.Emptiness
import TypedFlow.Proofs.Ty.Tidy

/-!
# Disjointness is symmetric

An intersection is computed from the side of its left operand: that side's fields are looked up in
the other and its variants, and a union is taken apart member by member. Where every struct lists a
field once, this shows in the order of what is left, but not in whether anything is left. No bounds
on numbers are needed for it, and empty enums may occur.
-/
namespace TypedFlow

/-- Sets of numbers in normal form. -/
def NumericSet.Normalized (s : NumericSet) : Prop := ∃ reals integers, s = .ofParts reals integers

namespace NumericSet

theorem normalized_ofParts (reals integers : List Interval) : (ofParts reals integers).Normalized :=
  ⟨reals, integers, rfl⟩

theorem Normalized.solid {s : NumericSet} (h : s.Normalized) : s.Solid := by
  obtain ⟨reals, integers, rfl⟩ := h
  exact solid_ofParts reals integers

end NumericSet

namespace Ty

/-- Numeric sets are in normal form and neither nothing nor everything, fields and variants are
listed once, and unions are minimal. -/
def OrderlyLayer : Ty → Prop
  | .numeric set => set.Normalized ∧ (Ty.numeric set).Filled
  | .struct _ fields => (Entries.names fields).Nodup
  | .enum _ variants => Entries.Ascending variants
  | .oneOf members => 2 ≤ members.length ∧ Minimal members
  | _ => True

abbrev Orderly (t : Ty) : Prop := Everywhere OrderlyLayer t

theorem kept_orderlyLayer : Kept OrderlyLayer NumericSet.Normalized where
  any := trivial
  never := trivial
  number := trivial
  string := trivial
  stringLiteral _ := trivial
  set h := h.1
  numeric h hfilled := ⟨h, hfilled⟩
  union _ _ := NumericSet.normalized_ofParts _ _
  intersect _ _ := NumericSet.normalized_ofParts _ _
  struct h hnames := by
    simp only [OrderlyLayer, hnames]
    exact h
  enum h _ hnames := List.Pairwise.sublist hnames h
  merge _ h _ := Gathered.ascending_mergeVariants h
  oneOf hlength hminimal := ⟨hlength, hminimal⟩

section Never

theorem ofNumericSet_eq_never_iff {set : NumericSet} :
    ofNumericSet set = .never ↔ set.isEmpty = true := by
  simp only [ofNumericSet]
  split
  · simp [*]
  · split <;> simp [*]

/-- Not a union, and left in every union whatever else there is. -/
structure Lasting (t : Ty) : Prop where
  plain : t.Plain
  notNever : t ≠ .never
  filled : t.Filled

namespace Gathered
variable {g : Gathered} {join : Ty → Ty → Ty} {t : Ty}

/-- Something has been gathered that will be a member. -/
inductive Inhabited (g : Gathered) : Prop
  | any (h : g.any = true)
  | number (h : g.number = true)
  | string (h : g.string = true)
  | numeric {set : NumericSet} (h : g.numeric = some set) (nonempty : set.isEmpty = false)
  | literals (h : g.literals ≠ [])
  | enums (h : ∃ e ∈ g.enums, e.2 ≠ [])
  | structs (h : g.structs ≠ [])

theorem Inhabited.memberList_ne_nil (h : g.Inhabited) (hany : g.any = false) :
    g.memberList ≠ [] := by
  intro hnil
  simp only [memberList, List.append_eq_nil_iff, List.map_eq_nil_iff] at hnil
  obtain ⟨⟨⟨hnumeric, htexts⟩, henums⟩, hstructs⟩ := hnil
  simp only [numericMembers] at hnumeric
  cases h with
  | any h =>
    rw [hany] at h
    cases h
  | number h =>
    rw [if_pos h] at hnumeric
    cases hnumeric
  | string h =>
    rw [if_pos h] at htexts
    cases htexts
  | @numeric set hset hne =>
    split at hnumeric
    · cases hnumeric
    · rw [hset, Option.map_some] at hnumeric
      split at hnumeric
      · rename_i heq
        cases heq
      · rename_i heq
        rw [Option.some.injEq, ofNumericSet_eq_never_iff, hne] at heq
        cases heq
      · cases hnumeric
  | literals h =>
    split at htexts
    · cases htexts
    · exact h (List.map_eq_nil_iff.1 htexts)
  | enums h =>
    obtain ⟨e, he, hne⟩ := h
    have hmem : e ∈ g.enums.filter (!·.2.isEmpty) := List.mem_filter.2 ⟨he, by simpa using hne⟩
    rw [henums] at hmem
    cases hmem
  | structs h => exact h hstructs

theorem Inhabited.build_ne_never (h : g.Inhabited) (hminimal : Minimal g.memberList) :
    g.build ≠ .never := by
  rcases build_cases g with ⟨-, hb⟩ | ⟨hany, ⟨hnil, -⟩ | ⟨only, honly, hb⟩ | ⟨-, hb⟩⟩
  · simp [hb]
  · exact absurd hnil (h.memberList_ne_nil hany)
  · exact hb ▸ (hminimal.single only (honly ▸ List.mem_singleton_self only)).notNever
  · simp [hb]

/-- What holds of an enum, and is not lost where enums are merged, holds of one that is gathered. -/
theorem exists_addEnum {P : String × List (String × Option Ty) → Prop} {name : String}
    {variants : List (String × Option Ty)} {enums : List (String × List (String × Option Ty))}
    (hmerge : ∀ present, (name, present) ∈ enums → P (name, present) ∨ P (name, variants) →
      P (name, mergeVariants join present variants))
    (h : P (name, variants) ∨ ∃ e ∈ enums, P e) :
    ∃ e ∈ addEnum join name variants enums, P e := by
  induction enums with
  | nil => simpa [addEnum] using h
  | cons entry enums ih =>
    obtain ⟨other, present⟩ := entry
    rw [List.exists_mem_cons_iff] at h
    by_cases hname : other = name
    · subst hname
      have hmerged := hmerge present List.mem_cons_self
      rw [addEnum, if_pos (beq_self_eq_true other), List.exists_mem_cons_iff]
      rcases h with h | h | h
      · exact .inl (hmerged (.inr h))
      · exact .inl (hmerged (.inl h))
      · exact .inr h
    · have hrest := ih fun p hp => hmerge p (List.mem_cons_of_mem _ hp)
      rw [addEnum, if_neg (by simpa using hname), List.exists_mem_cons_iff]
      rcases h with h | h | h
      · exact .inr (hrest (.inl h))
      · exact .inl h
      · exact .inr (hrest (.inr h))

theorem addStruct_ne_nil {name : String} {fields : List (String × Ty)}
    {structs : List (String × List (String × Ty))} : addStruct name fields structs ≠ [] := by
  simp only [addStruct]
  split
  · rename_i hany
    rintro rfl
    simp at hany
  · simp

theorem isEmpty_elim_union {present : Option NumericSet} {set : NumericSet}
    (hp : ∀ s, present = some s → s.Solid) (hs : set.Solid)
    (h : (∃ s, present = some s ∧ s.isEmpty = false) ∨ set.isEmpty = false) :
    (present.elim set (·.union set)).isEmpty = false := by
  cases present with
  | none => simpa using h
  | some s =>
    rw [Option.elim_some, NumericSet.isEmpty_union (hp s rfl) hs, Bool.and_eq_false_iff]
    simpa using h

theorem inhabited_add (hg : ∀ set, g.numeric = some set → set.Solid)
    (ht : ∀ set, t = .numeric set → set.Solid) (h : g.Inhabited ∨ Lasting t) :
    (add join g t).Inhabited := by
  cases t with
  | any => exact .any rfl
  | never => exact h.resolve_right fun ht => ht.notNever rfl
  | oneOf members => exact h.resolve_right fun ht => ht.plain members rfl
  | number => exact .number rfl
  | string => exact .string rfl
  | stringLiteral content =>
    refine .literals ?_
    simp only [add]
    split
    · rename_i hmem
      exact List.ne_nil_of_mem (List.contains_iff_mem.1 hmem)
    · simp
  | struct name fields => exact .structs addStruct_ne_nil
  | numeric set =>
    have hunion := isEmpty_elim_union hg (ht set rfl)
    rcases h with hother | hlasting
    · cases hother with
      | any h => exact .any h
      | number h => exact .number h
      | string h => exact .string h
      | numeric h hne => exact .numeric rfl (hunion (.inl ⟨_, h, hne⟩))
      | literals h => exact .literals h
      | enums h => exact .enums h
      | structs h => exact .structs h
    · exact .numeric rfl (hunion (.inr hlasting.filled.1))
  | enum name variants =>
    rcases h with hother | hlasting
    · cases hother with
      | any h => exact .any h
      | number h => exact .number h
      | string h => exact .string h
      | numeric h hne => exact .numeric h hne
      | literals h => exact .literals h
      | enums h => exact .enums (exists_addEnum (fun _ _ => mergeVariants_ne_nil) (.inr h))
      | structs h => exact .structs h
    · exact .enums (exists_addEnum (fun _ _ => mergeVariants_ne_nil) (.inl hlasting.filled))

theorem inhabited_foldl_add {types : List Ty} (hg : g.Holds OrderlyLayer NumericSet.Normalized)
    (htypes : ∀ t ∈ types, t.Orderly) (h : g.Inhabited ∨ ∃ t ∈ types, t.Lasting) :
    (types.foldl (add union) g).Inhabited := by
  induction types generalizing g with
  | nil => simpa using h
  | cons t types ih =>
    obtain ⟨ht, htypes⟩ := List.forall_mem_cons.1 htypes
    have hadd := holds_add kept_orderlyLayer (fun _ _ => everywhere_union kept_orderlyLayer) hg ht
    rw [List.foldl_cons]
    refine ih hadd htypes ?_
    rw [List.exists_mem_cons_iff, ← or_assoc] at h
    refine h.imp_left fun h => inhabited_add (fun set hset => (hg.numeric set hset).solid) ?_ h
    rintro set rfl
    exact ht.here.1.solid

end Gathered

theorem Concise.exists_lasting {t : Ty} (h : t.Concise) (hne : t ≠ .never) :
    ∃ s ∈ flatten t, s.Lasting := by
  cases t with
  | oneOf members =>
    obtain ⟨hlength, hminimal⟩ := h
    obtain ⟨s, hs⟩ := List.exists_mem_of_length_pos (Nat.lt_of_lt_of_le Nat.zero_lt_two hlength)
    have hsingle := hminimal.single s hs
    rw [flatten, hminimal.flattenAll]
    exact ⟨s, hs, hsingle.plain, hsingle.notNever, hminimal.filled s hs⟩
  | _ => exact ⟨_, List.mem_singleton_self _, by simp [Plain], hne, h⟩

/-- Empty enums apart, a union is `never` only if there is nothing else in it. -/
theorem unionAll_eq_never_iff {types : List Ty} (h : ∀ t ∈ types, t.Orderly)
    (hconcise : ∀ t ∈ types, t.Concise) : unionAll types = .never ↔ ∀ t ∈ types, t = .never := by
  rw [unionAll_eq]
  constructor
  · intro hnever t ht
    by_contra hne
    obtain ⟨s, hs, hlasting⟩ := (hconcise t ht).exists_lasting hne
    have hflat : ∀ r ∈ flattenAll types, r.Orderly := by
      intro r hr
      rw [flattenAll_eq] at hr
      obtain ⟨t, ht, hr⟩ := List.mem_flatMap.1 hr
      exact (h t ht).flatten hr
    have hmem : s ∈ flattenAll types := flattenAll_eq types ▸ List.mem_flatMap.2 ⟨t, ht, hs⟩
    have hinhabited := Gathered.inhabited_foldl_add Gathered.holds_empty hflat
      (.inr ⟨s, hmem, hlasting⟩)
    exact hinhabited.build_ne_never (minimal_gathered types) hnever
  · intro hall
    have hempty : (flattenAll types).foldl (Gathered.add union) .empty = .empty := by
      clear h hconcise
      induction types with
      | nil => rfl
      | cons t types ih =>
        obtain ⟨rfl, hrest⟩ := List.forall_mem_cons.1 hall
        exact ih hrest
    rw [hempty]
    rfl

end Never

section Operands
variable {a b : Ty}

theorem intersect_never : intersect a .never = .never := by
  cases a <;> simp [intersect]

theorem any_intersect : intersect .any b = b := by
  cases b <;> simp [intersect]

theorem intersect_any : intersect a .any = a := by
  cases a <;> simp [intersect]

/-- What is common to types other than `any` is no empty enum. -/
theorem concise_intersect (ha : a.Orderly) (hb : b.Orderly) (hna : a ≠ .any) (hnb : b ≠ .any) :
    (intersect a b).Concise := by
  have hcases := intersection a b
  generalize intersect a b = c at hcases
  cases hcases with
  | anyLeft => exact absurd rfl hna
  | anyRight => exact absurd rfl hnb
  | unionLeft | unionRight => exact concise_unionAll _
  | numberNumeric => exact hb.here.2
  | numericNumber => exact ha.here.2
  | numeric set other =>
    rcases Gathered.ofNumericSet_cases (set.intersect other) with hof | hof | ⟨hof, hfilled⟩
    · exact hof ▸ trivial
    · exact hof ▸ trivial
    · exact hof ▸ hfilled
  | enum left => exact left
  | _ => trivial

theorem intersect_oneOf_of_plain {members : List Ty} (ha : a.Plain) :
    intersect a (.oneOf members) = intersect (.oneOf members) a := by
  cases a with
  | oneOf others => exact absurd rfl (ha others)
  | _ => simp [intersect]

theorem oneOf_intersect_eq_never_iff {members : List Ty} (hm : (Ty.oneOf members).Orderly)
    (hb : b.Orderly) (hnb : b ≠ .any) :
    intersect (.oneOf members) b = .never ↔ ∀ t ∈ members, intersect t b = .never := by
  by_cases hnever : b = .never
  · simp [hnever, intersect_never]
  · have hunfold : intersect (.oneOf members) b = unionAll (members.map (intersect · b)) := by
      rw [← intersectAll_eq]
      cases b with
      | any => exact absurd rfl hnb
      | never => exact absurd rfl hnever
      | _ => rw [intersect] <;> simp
    rw [hunfold, unionAll_eq_never_iff, List.forall_mem_map]
    · exact List.forall_mem_map.2 fun t ht =>
        everywhere_intersect kept_orderlyLayer (hm.inside t ht) hb
    · exact List.forall_mem_map.2 fun t ht =>
        concise_intersect (hm.inside t ht) hb (hm.here.2.single t ht).notAny hnb

end Operands

section Swapped

theorem intersect_struct_swapped {name name' : String} {fields others : List (String × Ty)}
    (ih : ∀ e ∈ fields, ∀ f ∈ others, intersect e.2 f.2 = .never → intersect f.2 e.2 = .never)
    (hd : (Entries.names fields).Nodup) (hd' : (Entries.names others).Nodup)
    (h : intersect (.struct name fields) (.struct name' others) = .never) :
    intersect (.struct name' others) (.struct name fields) = .never := by
  rw [intersect] at h ⊢
  split
  · rename_i hsame
    rw [Bool.and_eq_true, beq_iff_eq] at hsame
    obtain ⟨rfl, hshape⟩ := hsame
    have hsome := get?_isSome_of_sameShape hd' hshape
    rw [beq_self_eq_true, sameShape_of_isSome hd hd' fun name => (hsome name).symm, Bool.and_self,
      if_pos rfl] at h
    have hnone : intersectFields fields others = none := by
      cases hcommon : intersectFields fields others with
      | none => rfl
      | some common =>
        rw [hcommon] at h
        cases h
    obtain ⟨e, he, hall⟩ := intersectFields_eq_none hnone
    have hget := Entries.get?_of_mem hd he
    obtain ⟨other, hother⟩ := Option.isSome_iff_exists.1 ((hsome e.1).trans (by rw [hget]; rfl))
    cases hcommon : intersectFields others fields with
    | none => rfl
    | some common =>
      obtain ⟨-, hinhabited, hlookup⟩ := intersectFields_eq_some hcommon
      have hfield := hlookup e.1
      rw [hother, hget, Option.bind_some, Option.map_some] at hfield
      have hleft := hinhabited _ (Entries.mem_of_get? hfield)
      have hnever := ih e he _ (Entries.mem_of_get? hother) (isNever_iff.1 (hall other hother))
      rw [hnever] at hleft
      cases hleft
  · rfl

theorem commonPayload_eq_none_iff {payload other : Option Ty} : commonPayload payload other = none ↔
    ∃ s t, payload = some s ∧ other = some t ∧ intersect s t = .never := by
  cases other with
  | none => simp [commonPayload]
  | some t =>
    cases payload with
    | none => simp [commonPayload]
    | some s => simp [commonPayload, isNever_iff]

theorem intersectVariants_eq_nil_iff {variants others : List (String × Option Ty)}
    (hd : (Entries.names variants).Nodup) : intersectVariants variants others = [] ↔
      ∀ name p q, Entries.get? variants name = some p → Entries.get? others name = some q →
        commonPayload p q = none := by
  rw [intersectVariants_eq]
  constructor
  · intro hnil name p q hp hq
    have hlookup := Entries.get?_mapEntries (fun name payload =>
      (Entries.get? others name).bind (commonPayload payload)) hd name
    rw [hnil, hp, Option.bind_some, hq, Option.bind_some] at hlookup
    exact hlookup.symm
  · intro hall
    refine List.eq_nil_iff_forall_not_mem.2 fun e he => ?_
    obtain ⟨payload, hpayload⟩ := Option.isSome_iff_exists.1
      (Entries.get?_isSome_iff.2 (List.mem_map_of_mem he))
    rw [Entries.get?_mapEntries _ hd, Option.bind_eq_some_iff] at hpayload
    obtain ⟨p, hp, hcommon⟩ := hpayload
    obtain ⟨q, hq, hcommon⟩ := Option.bind_eq_some_iff.1 hcommon
    rw [hall e.1 p q hp hq] at hcommon
    cases hcommon

theorem intersect_enum_eq_never_iff {name name' : String}
    {variants others : List (String × Option Ty)} :
    intersect (.enum name variants) (.enum name' others) = .never ↔
      name = name' → intersectVariants variants others = [] := by
  rw [intersect]
  by_cases hname : name = name'
  · rw [if_pos (beq_iff_eq.2 hname)]
    split
    · simp [*]
    · rename_i hne
      simpa [hname] using hne
  · simp [hname]

theorem intersect_enum_swapped {name name' : String} {variants others : List (String × Option Ty)}
    (ih : ∀ e ∈ variants, ∀ f ∈ others, ∀ s t, e.2 = some s → f.2 = some t →
      intersect s t = .never → intersect t s = .never)
    (hd : (Entries.names variants).Nodup) (hd' : (Entries.names others).Nodup)
    (h : intersect (.enum name variants) (.enum name' others) = .never) :
    intersect (.enum name' others) (.enum name variants) = .never := by
  rw [intersect_enum_eq_never_iff, intersectVariants_eq_nil_iff hd']
  rw [intersect_enum_eq_never_iff, intersectVariants_eq_nil_iff hd] at h
  intro hname variant q p hq hp
  obtain ⟨s, t, rfl, rfl, hnever⟩ := commonPayload_eq_none_iff.1 (h hname.symm variant p q hp hq)
  exact commonPayload_eq_none_iff.2 ⟨t, s, rfl, rfl,
    ih _ (Entries.mem_of_get? hp) _ (Entries.mem_of_get? hq) s t rfl rfl hnever⟩

theorem intersect_oneOf_swapped {members others : List Ty}
    (ih : ∀ s ∈ members, ∀ t ∈ others, intersect t s = .never → intersect s t = .never)
    (hm : (Ty.oneOf members).Orderly) (ho : (Ty.oneOf others).Orderly)
    (h : intersect (.oneOf members) (.oneOf others) = .never) :
    intersect (.oneOf others) (.oneOf members) = .never := by
  have hsingle := hm.here.2.single
  have hsingle' := ho.here.2.single
  rw [oneOf_intersect_eq_never_iff hm ho (by simp)] at h
  rw [oneOf_intersect_eq_never_iff ho hm (by simp)]
  intro t ht
  rw [intersect_oneOf_of_plain (hsingle' t ht).plain,
    oneOf_intersect_eq_never_iff hm (ho.inside t ht) (hsingle' t ht).notAny]
  intro s hs
  have hnever := h s hs
  rw [intersect_oneOf_of_plain (hsingle s hs).plain,
    oneOf_intersect_eq_never_iff ho (hm.inside s hs) (hsingle s hs).notAny] at hnever
  exact ih s hs t ht (hnever t ht)

/-- Only below two unions the operands are exchanged once more. -/
theorem intersect_swapped (a b : Ty) (ha : a.Orderly) (hb : b.Orderly)
    (h : intersect a b = .never) : intersect b a = .never := by
  induction a, b using induction_on_both with
  | step a b ih =>
    have hboth : ∀ s ∈ a.parts, ∀ t ∈ b.parts, intersect s t = .never → intersect t s = .never :=
      fun s hs t ht => (ih s hs t ht).1 (ha.inside s hs) (hb.inside t ht)
    have hboth' : ∀ s ∈ a.parts, ∀ t ∈ b.parts, intersect t s = .never → intersect s t = .never :=
      fun s hs t ht => (ih s hs t ht).2 (hb.inside t ht) (ha.inside s hs)
    cases a with
    | any => rwa [intersect_any, ← any_intersect (b := b)]
    | never => exact intersect_never
    | oneOf members =>
      cases b with
      | oneOf others => exact intersect_oneOf_swapped hboth' ha hb h
      | _ => rwa [intersect_oneOf_of_plain (by simp [Plain])]
    | struct name fields =>
      cases b with
      | struct name' others =>
        exact intersect_struct_swapped (fun e he f hf =>
          hboth _ (List.mem_map_of_mem he) _ (List.mem_map_of_mem hf)) ha.here hb.here h
      | oneOf others => rwa [← intersect_oneOf_of_plain (by simp [Plain])]
      | _ => simp [intersect] at h ⊢
    | enum name variants =>
      cases b with
      | enum name' others =>
        exact intersect_enum_swapped (fun e he f hf s t hs ht =>
          hboth s (List.mem_filterMap.2 ⟨e, he, hs⟩) t (List.mem_filterMap.2 ⟨f, hf, ht⟩))
          ha.here.nodup hb.here.nodup h
      | oneOf others => rwa [← intersect_oneOf_of_plain (by simp [Plain])]
      | _ => simp [intersect] at h ⊢
    | numeric set =>
      cases b with
      | numeric other =>
        rw [intersect, ofNumericSet_eq_never_iff] at h ⊢
        rwa [NumericSet.isEmpty_intersect_comm hb.here.1.solid ha.here.1.solid]
      | oneOf others => rwa [← intersect_oneOf_of_plain (by simp [Plain])]
      | _ => simp [intersect] at h ⊢
    | stringLiteral text =>
      cases b with
      | stringLiteral other =>
        by_cases hsame : text = other
        · simp [intersect, hsame] at h
        · rw [intersect, if_neg (by simpa using Ne.symm hsame)]
      | oneOf others => rwa [← intersect_oneOf_of_plain (by simp [Plain])]
      | _ => simp [intersect] at h ⊢
    | number =>
      cases b with
      | oneOf others => rwa [← intersect_oneOf_of_plain (by simp [Plain])]
      | _ => simp [intersect] at h ⊢
    | string =>
      cases b with
      | oneOf others => rwa [← intersect_oneOf_of_plain (by simp [Plain])]
      | _ => simp [intersect] at h ⊢

theorem isDisjoint_comm {a b : Ty} (ha : a.Orderly) (hb : b.Orderly) :
    isDisjoint a b = isDisjoint b a := by
  rw [Bool.eq_iff_iff, isDisjoint, isDisjoint, isNever_iff, isNever_iff]
  exact ⟨intersect_swapped a b ha hb, intersect_swapped b a hb ha⟩

end Swapped
end Ty
end TypedFlow
