import Mathlib.Data.Finset.Dedup
import Mathlib.Data.Finset.Insert
import TypedFlow.Proofs.Ty.Lattice
import TypedFlow.Proofs.Ty.Tidy
import TypedFlow.Ty.Equality

/-!
# Equality of types

Equality compares numeric sets by their ends, fields in order, and unions as sets of as many
members. Equal normal types are subtypes of each other. The converse holds where structs of one
name list the same fields in one order: the form that unions and intersections bring types into is
then the only one with its probes.
-/
namespace TypedFlow

section Entries
namespace Entries
variable {α β : Type} {R : α → β → Prop} {entries : Entries α} {others : Entries β}

theorem forall₂_of_exists_get? (hnames : names entries = names others)
    (hd : (names others).Nodup)
    (h : ∀ e ∈ entries, ∃ other, get? others e.1 = some other ∧ R e.2 other) :
    List.Forall₂ (fun e f => e.1 = f.1 ∧ R e.2 f.2) entries others := by
  induction entries generalizing others with
  | nil =>
    cases others with
    | nil => exact .nil
    | cons f others => cases hnames
  | cons e entries ih =>
    cases others with
    | nil => cases hnames
    | cons f others =>
      rw [names_cons, names_cons] at hnames
      obtain ⟨hname, hnames⟩ := List.cons.inj hnames
      rw [names_cons, List.nodup_cons] at hd
      obtain ⟨hfresh, hd⟩ := hd
      obtain ⟨hfirst, hrest⟩ := List.forall_mem_cons.1 h
      refine .cons ⟨hname, ?_⟩ (ih hnames hd fun e' he' => ?_)
      · obtain ⟨other, hget, hrel⟩ := hfirst
        rw [get?_cons, if_pos hname.symm] at hget
        exact Option.some.inj hget ▸ hrel
      · obtain ⟨other, hget, hrel⟩ := hrest e' he'
        have hne : f.1 ≠ e'.1 := by
          rintro heq
          apply hfresh
          rw [heq, ← hnames]
          exact List.mem_map_of_mem he'
        rw [get?_cons, if_neg hne] at hget
        exact ⟨other, hget, hrel⟩

theorem exists_get?_of_forall₂ (hd : (names others).Nodup)
    (h : List.Forall₂ (fun e f => e.1 = f.1 ∧ R e.2 f.2) entries others) :
    ∀ e ∈ entries, ∃ other, get? others e.1 = some other ∧ R e.2 other := by
  induction h with
  | nil => simp
  | @cons e f entries others hfirst _ ih =>
    rw [names_cons, List.nodup_cons] at hd
    obtain ⟨hfresh, hd⟩ := hd
    refine List.forall_mem_cons.2 ⟨⟨f.2, by simp [get?_cons, hfirst.1], hfirst.2⟩, fun e' he' => ?_⟩
    obtain ⟨other, hget, hrel⟩ := ih hd e' he'
    have hne : f.1 ≠ e'.1 := by
      rintro heq
      apply hfresh
      rw [heq]
      exact List.mem_map_of_mem (mem_of_get? hget)
    exact ⟨other, by rw [get?_cons, if_neg hne, hget], hrel⟩

/-- Where each entry of either side is related to the one of its name, those relations go both
ways. -/
theorem exists_both {S : β → α → Prop} (hd : (names entries).Nodup)
    (h : ∀ e ∈ entries, ∃ other, get? others e.1 = some other ∧ R e.2 other)
    (h' : ∀ f ∈ others, ∃ value, get? entries f.1 = some value ∧ S f.2 value) :
    ∀ e ∈ entries, ∃ other, get? others e.1 = some other ∧ R e.2 other ∧ S other e.2 := by
  intro e he
  obtain ⟨other, hget, hrel⟩ := h e he
  obtain ⟨value, hvalue, hrel'⟩ := h' _ (mem_of_get? hget)
  rw [get?_of_mem hd he] at hvalue
  exact ⟨other, hget, hrel, Option.some.inj hvalue ▸ hrel'⟩

theorem names_subset_of_exists
    (h : ∀ e ∈ entries, ∃ other, get? others e.1 = some other ∧ R e.2 other) :
    names entries ⊆ names others := by
  intro name hname
  obtain ⟨e, he, rfl⟩ := List.mem_map.1 hname
  obtain ⟨other, hget, -⟩ := h e he
  exact List.mem_map_of_mem (mem_of_get? hget)

theorem Ascending.names_eq (h : Ascending entries) (h' : Ascending others)
    (hsubset : names entries ⊆ names others) (hsubset' : names others ⊆ names entries) :
    names entries = names others := by
  have hperm : (names entries).Perm (names others) :=
    (List.perm_ext_iff_of_nodup h.nodup h'.nodup).2 fun _ => ⟨@hsubset _, @hsubset' _⟩
  exact hperm.eq_of_pairwise (fun _ _ _ _ hab hba => absurd hba hab.asymm) h h'

end Entries
end Entries

namespace Ty

section Tests
variable {a b : Ty} {fields others : List (String × Ty)}
  {variants listed : List (String × Option Ty)} {name name' : String}

theorem someEqual_iff {types : List Ty} :
    someEqual types a = true ↔ ∃ t ∈ types, equal t a = true := by
  induction types with
  | nil => simp [someEqual]
  | cons t types ih => simp [someEqual, ih]

theorem allAmong_iff {types others : List Ty} :
    allAmong types others = true ↔ ∀ t ∈ types, ∃ other ∈ others, equal other t = true := by
  induction types with
  | nil => simp [allAmong]
  | cons t types ih => simp [allAmong, someEqual_iff, ih]

theorem equalFields_iff : equalFields fields others = true ↔
    List.Forall₂ (fun e f => e.1 = f.1 ∧ equal e.2 f.2 = true) fields others := by
  induction fields generalizing others with
  | nil =>
    cases others with
    | nil => simp [equalFields]
    | cons f others => simp [equalFields]
  | cons e fields ih =>
    cases others with
    | nil => simp [equalFields]
    | cons f others => rw [equalFields, Bool.and_eq_true, Bool.and_eq_true, beq_iff_eq, ih,
        List.forall₂_cons]

theorem equalVariants_iff : equalVariants variants listed = true ↔
    List.Forall₂ (fun e f => e.1 = f.1 ∧ Option.Rel (equal · · = true) e.2 f.2)
      variants listed := by
  have hsome : ∀ {s t : Ty},
      Option.Rel (equal · · = true) (some s) (some t) ↔ equal s t = true := by
    intro s t
    refine ⟨fun h => ?_, fun h => .some h⟩
    cases h with
    | some h => exact h
  have hleft : ∀ {t : Ty}, ¬ Option.Rel (equal · · = true) none (some t) := by
    intro t h
    cases h
  have hright : ∀ {t : Ty}, ¬ Option.Rel (equal · · = true) (some t) none := by
    intro t h
    cases h
  induction variants generalizing listed with
  | nil =>
    cases listed with
    | nil => simp [equalVariants]
    | cons f listed => simp [equalVariants]
  | cons e variants ih =>
    obtain ⟨name, payload⟩ := e
    cases listed with
    | nil => cases payload <;> simp [equalVariants]
    | cons f listed =>
      obtain ⟨name', payload'⟩ := f
      cases payload with
      | none =>
        cases payload' with
        | none => simp [equalVariants, ih]
        | some t => simp [equalVariants, hleft]
      | some s =>
        cases payload' with
        | none => simp [equalVariants, hright]
        | some t => simp [equalVariants, ih, hsome, and_assoc]

/-- Each of the two types is a subtype of the other. -/
def Mutual (a b : Ty) : Prop := isSubtype a b = true ∧ isSubtype b a = true

theorem Mutual.symm (h : Mutual a b) : Mutual b a := ⟨h.2, h.1⟩

theorem mutual_iff_has (ha : a.Normal) (hb : b.Normal) :
    Mutual a b ↔ ∀ v, Has v a ↔ Has v b := by
  rw [Mutual, isSubtype_iff ha hb, isSubtype_iff hb ha, ← forall_and]
  exact forall_congr' fun v => iff_iff_implies_and_implies.symm

theorem rel_mutual_of_within {payload payload' : Option Ty}
    (h : payloadWithin payload payload' = true) (h' : payloadWithin payload' payload = true) :
    Option.Rel Mutual payload payload' := by
  cases payload with
  | none =>
    cases payload' with
    | none => exact .none
    | some t => cases h
  | some s =>
    cases payload' with
    | none => cases h'
    | some t => exact .some ⟨h, h'⟩

end Tests

section Members
variable {a b s t : Ty} {members others : List Ty}

theorem Minimal.eq_of_isSubtype (h : Minimal members) (hs : s ∈ members) (ht : t ∈ members)
    (hsub : isSubtype s t = true) : s = t := by
  by_contra hne
  have hnot := (h.irredundant.forall hs ht hne).1
  rw [hsub] at hnot
  cases hnot

/-- Types matched with minimal members are as different as these. -/
theorem Minimal.subperm_of_mutual (h : Minimal members) (hn : ∀ t ∈ members, t.Normal)
    (hn' : ∀ t ∈ others, t.Normal) {f : Ty → Ty}
    (hf : ∀ t ∈ members, f t ∈ others ∧ Mutual t (f t)) : (members.map f).Subperm others := by
  have hsubset : members.map f ⊆ others := List.forall_mem_map.2 fun t ht => (hf t ht).1
  refine List.subperm_of_subset (List.pairwise_map.2 ?_) hsubset
  refine h.irredundant.imp_of_mem fun {s t} hs ht hst heq => ?_
  obtain ⟨hfs, hss⟩ := hf s hs
  obtain ⟨-, htt⟩ := hf t ht
  have hsub := isSubtype_trans (hn s hs) (hn' _ hfs) (hn t ht) hss.1 (heq ▸ htt.2)
  rw [hst.1] at hsub
  cases hsub

end Members

/-- Normal, and all unions in it are minimal. -/
structure Settled (t : Ty) : Prop extends t.Normal where
  tidy : t.Tidy

namespace Settled
variable {name : String} {fields : List (String × Ty)} {variants : List (String × Option Ty)}
  {members others : List Ty} {s t : Ty} {a b : NumericSet}

theorem ascending_variants (h : (Ty.enum name variants).Settled) : Entries.Ascending variants := by
  cases h.proper with
  | enum _ ascending _ _ => exact ascending

theorem field (h : (Ty.struct name fields).Settled) {e : String × Ty} (he : e ∈ fields) :
    e.2.Settled :=
  ⟨h.toNormal.field (Entries.get?_of_mem h.proper.nodup_fields he),
    (everywhere_struct_iff.1 h.tidy).2 e he⟩

theorem payload (h : (Ty.enum name variants).Settled) {e : String × Option Ty} (he : e ∈ variants)
    (ht : e.2 = some t) : t.Settled := by
  have hget := Entries.get?_of_mem h.ascending_variants.nodup he
  rw [ht] at hget
  exact ⟨h.toNormal.payload hget, (everywhere_enum_iff.1 h.tidy).2 e he t ht⟩

theorem member (h : (Ty.oneOf members).Settled) (ht : t ∈ members) : t.Settled :=
  ⟨(h.toNormal.member ht).1, h.tidy.inside t ht⟩

theorem single (h : (Ty.oneOf members).Settled) (ht : t ∈ members) : t.Single :=
  h.tidy.minimal.single t ht

theorem mutual_numeric_iff (ha : (Ty.numeric a).Settled) (hb : (Ty.numeric b).Settled) :
    Mutual (.numeric a) (.numeric b) ↔ (a == b) = true := by
  have hcanonical : ∀ {s}, (Ty.numeric s).Settled → s.Canonical := by
    intro s hs
    cases hs.reduced with
    | numeric canonical _ => exact canonical
  rw [mutual_iff_has ha.toNormal hb.toNormal,
    NumericSet.beq_iff (hcanonical ha).toTight (hcanonical hb).toTight]
  constructor
  · intro h x
    simpa [has_numeric_iff] using h (.number x)
  · intro h v
    simp only [has_numeric_iff, h]

/-- No type that is not a union has the same values as a union of two members or more. -/
theorem not_mutual_oneOf (hm : (Ty.oneOf members).Settled) (ht : t.Settled) (hsingle : t.Single) :
    ¬ Mutual t (.oneOf members) := by
  intro hmutual
  obtain ⟨s, hs, hts⟩ := hsingle.isSubtype_oneOf_iff.1 hmutual.1
  have hhas := (mutual_iff_has ht.toNormal hm.toNormal).1 hmutual
  have hall : ∀ r ∈ members, r = s := by
    intro r hr
    have hrn := (hm.member hr).toNormal
    have hrt : isSubtype r t = true :=
      isSubtype_of_has hrn ht.toNormal fun v hv => (hhas v).2 (.oneOf hr hv)
    exact hm.tidy.minimal.eq_of_isSubtype hr hs
      (isSubtype_trans hrn ht.toNormal (hm.member hs).toNormal hrt hts)
  have hpairs := hm.tidy.minimal.irredundant
  rw [List.eq_replicate_of_mem hall, List.pairwise_replicate] at hpairs
  rcases hpairs with hlength | hself
  · have := hm.tidy.here.1
    omega
  · rw [Incomparable, isSubtype_refl (hm.member hs).toNormal] at hself
    cases hself.1

theorem mutual_struct_of_equal (ha : (Ty.struct name fields).Settled)
    {others : List (String × Ty)} (hb : (Ty.struct name others).Settled)
    (ih : ∀ e ∈ fields, ∀ f ∈ others, equal e.2 f.2 = true → Mutual e.2 f.2)
    (h : equalFields fields others = true) : Mutual (.struct name fields) (.struct name others) := by
  have hpairs := equalFields_iff.1 h
  have hnames := Entries.names_eq_of_forall₂ (hpairs.imp fun _ _ => And.left)
  have hback : List.Forall₂ (fun f e => f.1 = e.1 ∧ equal e.2 f.2 = true) others fields :=
    (hpairs.imp fun _ _ hef => ⟨hef.1.symm, hef.2⟩).flip
  constructor
  · refine isSubtype_struct_iff.2 ⟨rfl, sameShape_of_names hnames, fun e he => ?_⟩
    obtain ⟨other, hget, heq⟩ := Entries.exists_get?_of_forall₂
      (R := fun s t => equal s t = true) hb.proper.nodup_fields hpairs e he
    exact ⟨other, hget, (ih e he _ (Entries.mem_of_get? hget) heq).1⟩
  · refine isSubtype_struct_iff.2 ⟨rfl, sameShape_of_names hnames.symm, fun f hf => ?_⟩
    obtain ⟨t, hget, heq⟩ := Entries.exists_get?_of_forall₂
      (R := fun t s => equal s t = true) ha.proper.nodup_fields hback f hf
    exact ⟨t, hget, (ih _ (Entries.mem_of_get? hget) f hf heq).2⟩

theorem mutual_enum_of_equal (ha : (Ty.enum name variants).Settled)
    {listed : List (String × Option Ty)} (hb : (Ty.enum name listed).Settled)
    (ih : ∀ e ∈ variants, ∀ f ∈ listed, ∀ s t, e.2 = some s → f.2 = some t →
      equal s t = true → Mutual s t)
    (h : equalVariants variants listed = true) :
    Mutual (.enum name variants) (.enum name listed) := by
  have hpairs := equalVariants_iff.1 h
  have hback : List.Forall₂ (fun f e => f.1 = e.1 ∧ Option.Rel (equal · · = true) e.2 f.2)
      listed variants := (hpairs.imp fun _ _ hef => ⟨hef.1.symm, hef.2⟩).flip
  have hrel : ∀ e ∈ variants, ∀ f ∈ listed, Option.Rel (equal · · = true) e.2 f.2 →
      payloadWithin e.2 f.2 = true ∧ payloadWithin f.2 e.2 = true := by
    rintro ⟨_, payload⟩ he ⟨_, payload'⟩ hf hef
    cases hef with
    | none => exact ⟨rfl, rfl⟩
    | some heq => exact ih _ he _ hf _ _ rfl rfl heq
  constructor
  · refine isSubtype_enum_iff.2 ⟨rfl, fun e he => ?_⟩
    obtain ⟨other, hget, heq⟩ :=
      Entries.exists_get?_of_forall₂ hb.ascending_variants.nodup hpairs e he
    exact ⟨other, hget, (hrel e he _ (Entries.mem_of_get? hget) heq).1⟩
  · refine isSubtype_enum_iff.2 ⟨rfl, fun f hf => ?_⟩
    obtain ⟨other, hget, heq⟩ := Entries.exists_get?_of_forall₂
      (R := fun t s => Option.Rel (equal · · = true) s t) ha.ascending_variants.nodup hback f hf
    exact ⟨other, hget, (hrel _ (Entries.mem_of_get? hget) f hf heq).2⟩

theorem mutual_oneOf_of_equal (ha : (Ty.oneOf members).Settled) (hb : (Ty.oneOf others).Settled)
    (hlength : members.length = others.length)
    (h : ∀ t ∈ members, ∃ other ∈ others, Mutual t other) :
    Mutual (.oneOf members) (.oneOf others) := by
  choose! f hf using h
  have hsubperm := ha.tidy.minimal.subperm_of_mutual (fun t ht => (ha.member ht).toNormal)
    (fun t ht => (hb.member ht).toNormal) hf
  -- as many members, so none of the others is left without a match
  have hperm := hsubperm.perm_of_length_le (by simp [hlength])
  constructor
  · refine (oneOf_isSubtype_iff (by simp)).2 fun t ht => (ha.single ht).isSubtype_oneOf_iff.2 ?_
    exact ⟨f t, (hf t ht).1, (hf t ht).2.1⟩
  · refine (oneOf_isSubtype_iff (by simp)).2 fun other hother =>
      (hb.single hother).isSubtype_oneOf_iff.2 ?_
    obtain ⟨t, ht, rfl⟩ := List.mem_map.1 (hperm.mem_iff.2 hother)
    exact ⟨t, ht, (hf t ht).2.2⟩

end Settled

/-- Equal types are subtypes of each other. -/
theorem mutual_of_equal {a b : Ty} (ha : a.Settled) (hb : b.Settled) (h : equal a b = true) :
    Mutual a b := by
  induction a, b using induction_on_both with
  | step a b ih =>
    have hself : ∀ {t : Ty}, t.Settled → Mutual t t := fun ht =>
      ⟨isSubtype_refl ht.toNormal, isSubtype_refl ht.toNormal⟩
    unfold equal at h
    split at h
    · exact hself ha
    · exact hself ha
    · exact hself ha
    · exact hself ha
    · exact (ha.mutual_numeric_iff hb).2 h
    · rw [beq_iff_eq] at h
      exact h ▸ hself ha
    · rw [Bool.and_eq_true, beq_iff_eq] at h
      obtain ⟨rfl, h⟩ := h
      refine ha.mutual_struct_of_equal hb (fun e he f hf => ?_) h
      exact (ih _ (List.mem_map_of_mem he) _ (List.mem_map_of_mem hf)).1 (ha.field he) (hb.field hf)
    · rw [Bool.and_eq_true, beq_iff_eq] at h
      obtain ⟨rfl, h⟩ := h
      refine ha.mutual_enum_of_equal hb (fun e he f hf s t hs ht => ?_) h
      exact (ih _ (List.mem_filterMap.2 ⟨e, he, hs⟩) _ (List.mem_filterMap.2 ⟨f, hf, ht⟩)).1
        (ha.payload he hs) (hb.payload hf ht)
    · rw [Bool.and_eq_true, beq_iff_eq, allAmong_iff] at h
      refine ha.mutual_oneOf_of_equal hb h.1 fun t ht => ?_
      obtain ⟨other, hother, heq⟩ := h.2 t ht
      exact ⟨other, hother, ((ih t ht other hother).2 (hb.member hother) (ha.member ht) heq).symm⟩
    · cases h

/-- A type is equal to itself. -/
theorem equal_self {t : Ty} (h : t.Settled) : equal t t = true := by
  induction t using induction_on_parts with
  | step t ih =>
    cases t with
    | any | never | number | string => rw [equal]
    | numeric set =>
      rw [equal]
      exact (h.mutual_numeric_iff h).1 ⟨isSubtype_refl h.toNormal, isSubtype_refl h.toNormal⟩
    | stringLiteral content => rw [equal, beq_self_eq_true]
    | struct name fields =>
      rw [equal, beq_self_eq_true, Bool.true_and, equalFields_iff, List.forall₂_same]
      exact fun e he => ⟨rfl, ih _ (List.mem_map_of_mem he) (h.field he)⟩
    | enum name variants =>
      rw [equal, beq_self_eq_true, Bool.true_and, equalVariants_iff, List.forall₂_same]
      rintro ⟨variant, payload⟩ he
      refine ⟨rfl, ?_⟩
      cases payload with
      | none => exact .none
      | some s => exact .some (ih s (List.mem_filterMap.2 ⟨_, he, rfl⟩) (h.payload he rfl))
    | oneOf members =>
      rw [equal, beq_self_eq_true, Bool.true_and, allAmong_iff]
      exact fun t ht => ⟨t, ht, ih t ht (h.member ht)⟩

section Layout
variable {layout : String → Finset String → List String}

/-- The fields of a struct stand in the order of the layout. -/
def LaidLayer (layout : String → Finset String → List String) : Ty → Prop
  | .struct name fields =>
    Entries.names fields = layout name (Entries.names fields).toFinset
  | _ => True

/-- Structs of one name with the same fields have these in one order, which the layout tells. -/
def Laid (layout : String → Finset String → List String) (t : Ty) : Prop :=
  Everywhere (LaidLayer layout) t

theorem kept_laidLayer : Kept (LaidLayer layout) fun _ => True where
  any := trivial
  never := trivial
  number := trivial
  string := trivial
  stringLiteral _ := trivial
  set _ := trivial
  numeric _ _ := trivial
  union _ _ := trivial
  intersect _ _ := trivial
  struct h hnames := by
    rw [LaidLayer, hnames]
    exact h
  enum _ _ _ := trivial
  merge _ _ _ := trivial
  oneOf _ _ := trivial

/-- Settled, with the fields of all structs in the order of the layout. -/
structure Arranged (layout : String → Finset String → List String) (t : Ty) : Prop
    extends t.Settled where
  laid : t.Laid layout

namespace Arranged
variable {name : String} {fields : List (String × Ty)} {variants : List (String × Option Ty)}
  {members others : List Ty} {s t : Ty}

theorem field (h : (Ty.struct name fields).Arranged layout) {e : String × Ty} (he : e ∈ fields) :
    e.2.Arranged layout :=
  ⟨h.toSettled.field he, (everywhere_struct_iff.1 h.laid).2 e he⟩

theorem payload (h : (Ty.enum name variants).Arranged layout) {e : String × Option Ty}
    (he : e ∈ variants) (ht : e.2 = some t) : t.Arranged layout :=
  ⟨h.toSettled.payload he ht, (everywhere_enum_iff.1 h.laid).2 e he t ht⟩

theorem member (h : (Ty.oneOf members).Arranged layout) (ht : t ∈ members) : t.Arranged layout :=
  ⟨h.toSettled.member ht, h.laid.inside t ht⟩

theorem equal_struct_of_mutual (ha : (Ty.struct name fields).Arranged layout)
    {name' : String} {others : List (String × Ty)} (hb : (Ty.struct name' others).Arranged layout)
    (ih : ∀ e ∈ fields, ∀ f ∈ others, Mutual e.2 f.2 → equal e.2 f.2 = true)
    (h : Mutual (.struct name fields) (.struct name' others)) :
    equal (.struct name fields) (.struct name' others) = true := by
  obtain ⟨rfl, hshape, hwithin⟩ := isSubtype_struct_iff.1 h.1
  obtain ⟨-, -, hwithin'⟩ := isSubtype_struct_iff.1 h.2
  have hd := ha.proper.nodup_fields
  have hsame : (Entries.names fields).toFinset = (Entries.names others).toFinset := by
    ext field
    rw [List.mem_toFinset, List.mem_toFinset, ← Entries.get?_isSome_iff,
      get?_isSome_of_sameShape hd hshape, Entries.get?_isSome_iff]
  have hnames : Entries.names fields = Entries.names others :=
    ha.laid.here.trans (hsame ▸ hb.laid.here.symm)
  rw [equal, beq_self_eq_true, Bool.true_and, equalFields_iff]
  refine Entries.forall₂_of_exists_get? (R := fun s t => equal s t = true) hnames
    hb.proper.nodup_fields fun e he => ?_
  obtain ⟨other, hget, hmutual⟩ := Entries.exists_both
    (R := fun s t => isSubtype s t = true) (S := fun t s => isSubtype t s = true) hd hwithin
    hwithin' e he
  exact ⟨other, hget, ih e he _ (Entries.mem_of_get? hget) hmutual⟩

theorem equal_enum_of_mutual (ha : (Ty.enum name variants).Arranged layout)
    {name' : String} {listed : List (String × Option Ty)}
    (hb : (Ty.enum name' listed).Arranged layout)
    (ih : ∀ e ∈ variants, ∀ f ∈ listed, ∀ s t, e.2 = some s → f.2 = some t →
      Mutual s t → equal s t = true)
    (h : Mutual (.enum name variants) (.enum name' listed)) :
    equal (.enum name variants) (.enum name' listed) = true := by
  obtain ⟨rfl, hwithin⟩ := isSubtype_enum_iff.1 h.1
  obtain ⟨-, hwithin'⟩ := isSubtype_enum_iff.1 h.2
  have hascending := ha.ascending_variants
  have hnames : Entries.names variants = Entries.names listed :=
    hascending.names_eq hb.ascending_variants
      (Entries.names_subset_of_exists (R := fun p q => payloadWithin p q = true) hwithin)
      (Entries.names_subset_of_exists (R := fun p q => payloadWithin p q = true) hwithin')
  rw [equal, beq_self_eq_true, Bool.true_and, equalVariants_iff]
  refine Entries.forall₂_of_exists_get? (R := Option.Rel (equal · · = true)) hnames
    hb.ascending_variants.nodup fun e he => ?_
  obtain ⟨other, hget, hpayload, hpayload'⟩ := Entries.exists_both
    (R := fun p q => payloadWithin p q = true) (S := fun q p => payloadWithin q p = true)
    hascending.nodup hwithin hwithin' e he
  have hf := Entries.mem_of_get? hget
  obtain ⟨variant, payload⟩ := e
  refine ⟨other, hget, ?_⟩
  cases rel_mutual_of_within hpayload hpayload' with
  | none => exact .none
  | some hmutual => exact .some (ih _ he _ hf _ _ rfl rfl hmutual)

theorem equal_oneOf_of_mutual (ha : (Ty.oneOf members).Arranged layout)
    (hb : (Ty.oneOf others).Arranged layout)
    (ih : ∀ t ∈ members, ∀ other ∈ others, Mutual other t → equal other t = true)
    (h : Mutual (.oneOf members) (.oneOf others)) :
    equal (.oneOf members) (.oneOf others) = true := by
  have hmatch : ∀ {xs ys : List Ty}, (Ty.oneOf xs).Settled → (Ty.oneOf ys).Settled →
      Mutual (.oneOf xs) (.oneOf ys) → ∀ t ∈ xs, ∃ other ∈ ys, Mutual t other := by
    intro xs ys hx hy hmutual t ht
    have hback := (oneOf_isSubtype_iff (by simp)).1 hmutual.2
    obtain ⟨other, hother, hsub⟩ :=
      (hx.single ht).isSubtype_oneOf_iff.1 ((oneOf_isSubtype_iff (by simp)).1 hmutual.1 t ht)
    obtain ⟨s, hs, hsub'⟩ := (hy.single hother).isSubtype_oneOf_iff.1 (hback other hother)
    -- the way there and back ends at the member it started from
    have hts := hx.tidy.minimal.eq_of_isSubtype ht hs
      (isSubtype_trans (hx.member ht).toNormal (hy.member hother).toNormal
        (hx.member hs).toNormal hsub hsub')
    exact ⟨other, hother, hsub, hts ▸ hsub'⟩
  have hle : ∀ {xs ys : List Ty}, (Ty.oneOf xs).Settled → (Ty.oneOf ys).Settled →
      Mutual (.oneOf xs) (.oneOf ys) → xs.length ≤ ys.length := by
    intro xs ys hx hy hmutual
    have hpair := hmatch hx hy hmutual
    choose! f hf using hpair
    have hsubperm := hx.tidy.minimal.subperm_of_mutual (fun t ht => (hx.member ht).toNormal)
      (fun t ht => (hy.member ht).toNormal) hf
    simpa using hsubperm.length_le
  have hlength := (hle ha.toSettled hb.toSettled h).antisymm (hle hb.toSettled ha.toSettled h.symm)
  rw [equal, hlength, beq_self_eq_true, Bool.true_and, allAmong_iff]
  intro t ht
  obtain ⟨other, hother, hmutual⟩ := hmatch ha.toSettled hb.toSettled h t ht
  exact ⟨other, hother, ih t ht other hother hmutual.symm⟩

end Arranged

/-- Types that are subtypes of each other are equal. -/
theorem equal_of_mutual {a b : Ty} (ha : a.Arranged layout) (hb : b.Arranged layout)
    (h : Mutual a b) : equal a b = true := by
  induction a, b using induction_on_both with
  | step a b ih =>
    obtain ⟨hab, hba⟩ := id h
    cases covered_of_isSubtype hab with
    | never => rw [isSubtype_never_iff.1 hba, equal]
    | any => rw [any_isSubtype_iff.1 hba, equal]
    | union hnever hany _ =>
      cases b with
      | oneOf others =>
        exact ha.equal_oneOf_of_mutual hb (fun t ht other hother =>
          (ih t ht other hother).2 (hb.member hother) (ha.member ht)) h
      | _ => exact absurd h.symm (ha.not_mutual_oneOf hb.toSettled ⟨hany, hnever, by simp [Plain]⟩)
    | member hnever hany hplain =>
      exact absurd h (hb.not_mutual_oneOf ha.toSettled ⟨hany, hnever, hplain⟩)
    | number | string => rw [equal]
    | numericNumber | literalString => simp [isSubtype] at hba
    | numeric =>
      rw [equal]
      exact (ha.mutual_numeric_iff hb.toSettled).1 h
    | literal => rw [equal, beq_self_eq_true]
    | struct =>
      refine ha.equal_struct_of_mutual hb (fun e he f hf => ?_) h
      exact (ih _ (List.mem_map_of_mem he) _ (List.mem_map_of_mem hf)).1 (ha.field he) (hb.field hf)
    | enum =>
      refine ha.equal_enum_of_mutual hb (fun e he f hf s t hs ht => ?_) h
      exact (ih _ (List.mem_filterMap.2 ⟨e, he, hs⟩) _ (List.mem_filterMap.2 ⟨f, hf, ht⟩)).1
        (ha.payload he hs) (hb.payload hf ht)

theorem mutual_iff_equal {a b : Ty} (ha : a.Arranged layout) (hb : b.Arranged layout) :
    Mutual a b ↔ equal a b = true :=
  ⟨equal_of_mutual ha hb, mutual_of_equal ha.toSettled hb.toSettled⟩

/-- Types with the same probes are equal. -/
theorem equal_of_has {a b : Ty} (ha : a.Arranged layout) (hb : b.Arranged layout)
    (h : ∀ v, Has v a ↔ Has v b) : equal a b = true :=
  equal_of_mutual ha hb ((mutual_iff_has ha.toNormal hb.toNormal).2 h)

section Operations
variable {a b : Ty} {types : List Ty}

theorem arranged_unionAll (h : ∀ t ∈ types, t.Arranged layout) :
    (unionAll types).Arranged layout where
  toNormal := normal_unionAll fun t ht => (h t ht).toNormal
  tidy := tidy_unionAll fun t ht => (h t ht).tidy
  laid := everywhere_unionAll kept_laidLayer fun t ht => (h t ht).laid

theorem arranged_intersect (ha : a.Arranged layout) (hb : b.Arranged layout) :
    (intersect a b).Arranged layout where
  toNormal := normal_intersect ha.toNormal hb.toNormal
  tidy := tidy_intersect ha.tidy hb.tidy
  laid := everywhere_intersect kept_laidLayer ha.laid hb.laid

theorem equal_unionAll_of_perm {others : List Ty} (h : ∀ t ∈ types, t.Arranged layout)
    (hperm : types.Perm others) : equal (unionAll types) (unionAll others) = true := by
  have hothers : ∀ t ∈ others, t.Arranged layout := fun t ht => h t (hperm.mem_iff.2 ht)
  refine equal_of_has (arranged_unionAll h) (arranged_unionAll hothers) fun v => ?_
  rw [(unionAll_spec fun t ht => (h t ht).proper).2,
    (unionAll_spec fun t ht => (hothers t ht).proper).2]
  exact exists_congr fun t => and_congr_left fun _ => hperm.mem_iff

theorem equal_union_self (ha : a.Arranged layout) : equal (union a a) a = true := by
  refine equal_of_has (arranged_unionAll (by simp [ha])) ha fun v => ?_
  rw [has_union ha.proper ha.proper, or_self]

theorem equal_intersect_self (ha : a.Arranged layout) : equal (intersect a a) a = true := by
  refine equal_of_has (arranged_intersect ha ha) ha fun v => ?_
  rw [(intersect_spec ha.proper ha.proper).2, and_self]

theorem equal_intersect_comm (ha : a.Arranged layout) (hb : b.Arranged layout) :
    equal (intersect a b) (intersect b a) = true := by
  refine equal_of_has (arranged_intersect ha hb) (arranged_intersect hb ha) fun v => ?_
  rw [(intersect_spec ha.proper hb.proper).2, (intersect_spec hb.proper ha.proper).2, and_comm]

end Operations

theorem Formed.tidy {t : Ty} (h : t.Formed) : t.Tidy := by
  induction h with
  | any | never | number | string | stringLiteral => exact everywhere_of_parts_nil rfl trivial
  | ofNumericSet _ => exact kept_tidyLayer.ofNumericSet trivial
  | struct _ _ _ ih => exact everywhere_struct_iff.2 ⟨trivial, ih⟩
  | enumOf _ _ _ ih => exact everywhere_enum_iff.2 ⟨trivial, ih⟩
  | unionAll _ ih => exact tidy_unionAll ih

theorem Formed.settled {t : Ty} (h : t.Formed) : t.Settled := ⟨h.normal, h.tidy⟩

/-- The form of types is a unique representation of their values: types that are subtypes of each
other are equal, and neither the order of types in a union nor repeating them shows. -/
theorem mutual_subtypes_are_equal {a b : Ty} (ha : a.Formed) (hb : b.Formed)
    (hla : a.Laid layout) (hlb : b.Laid layout) {types others : List Ty}
    (htypes : ∀ t ∈ types, t.Formed ∧ t.Laid layout) (hperm : types.Perm others) :
    ((isSubtype a b = true ∧ isSubtype b a = true) ↔ (a == b) = true) ∧
      (unionAll types == unionAll others) = true ∧ (union a a == a) = true ∧
      (intersect a a == a) = true ∧ (intersect a b == intersect b a) = true := by
  have haa : a.Arranged layout := ⟨ha.settled, hla⟩
  have hba : b.Arranged layout := ⟨hb.settled, hlb⟩
  have hta : ∀ t ∈ types, t.Arranged layout :=
    fun t ht => ⟨(htypes t ht).1.settled, (htypes t ht).2⟩
  exact ⟨mutual_iff_equal haa hba, equal_unionAll_of_perm hta hperm, equal_union_self haa,
    equal_intersect_self haa, equal_intersect_comm haa hba⟩

theorem pair_and_text_are_equal_if_mutual :
    let layout : String → Finset String → List String := fun _ _ => ["right", "left"]
    let pair := struct "pair" [("right", number), ("left", string)]
    let other := struct "pair" [("right", any), ("left", stringLiteral "on")]
    (pair.Formed ∧ pair.Laid layout) ∧ (other.Formed ∧ other.Laid layout) ∧
      ((isSubtype pair other = true ∧ isSubtype other pair = true) ↔ (pair == other) = true) ∧
      (unionAll [pair, other] == unionAll [other, pair]) = true ∧
      (union pair pair == pair) = true ∧ (intersect pair pair == pair) = true ∧
      (intersect pair other == intersect other pair) = true := by
  have hpair : Formed (struct "pair" [("right", number), ("left", string)]) :=
    .struct (by simp) (by simp [Formed.number, Formed.string]) (by simp)
  have hother : Formed (struct "pair" [("right", any), ("left", stringLiteral "on")]) :=
    .struct (by simp) (by simp [Formed.any, Formed.stringLiteral]) (by simp)
  have hlaid : ∀ {s t : Ty}, s.parts = [] → t.parts = [] → LaidLayer (fun _ _ => ["right", "left"]) s →
      LaidLayer (fun _ _ => ["right", "left"]) t →
      Laid (fun _ _ => ["right", "left"]) (struct "pair" [("right", s), ("left", t)]) := by
    intro s t hs ht hls hlt
    refine everywhere_struct_iff.2 ⟨rfl, ?_⟩
    simp [everywhere_of_parts_nil hs hls, everywhere_of_parts_nil ht hlt]
  have hpl := hlaid (s := number) (t := string) rfl rfl trivial trivial
  have hol := hlaid (s := any) (t := stringLiteral "on") rfl rfl trivial trivial
  exact ⟨⟨hpair, hpl⟩, ⟨hother, hol⟩, mutual_subtypes_are_equal hpair hother hpl hol
    (by simp [hpair, hother, hpl, hol]) (List.Perm.swap _ _ _)⟩

end Layout

end Ty
end TypedFlow
