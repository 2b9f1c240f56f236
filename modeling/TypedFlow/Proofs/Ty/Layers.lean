import TypedFlow.Proofs.Ty.Minimal
import TypedFlow.Ty.Difference

/-!
# Conditions on every layer of a type

`Everywhere C t` says that a condition holds of a type and of all types inside it. A condition that
looks at one layer only, and that a union of minimal members always meets, is kept by unions and
intersections; `Kept` lists what has to be checked for that.
-/
namespace TypedFlow

theorem Entries.sublist_names_mapEntries {α β : Type} (f : String → α → Option β)
    (entries : Entries α) : (names (mapEntries f entries)).Sublist (names entries) := by
  induction entries with
  | nil => exact .slnil
  | cons entry entries ih =>
    rw [mapEntries_cons]
    cases f entry.1 entry.2 with
    | none => exact ih.cons _
    | some b => exact ih.cons_cons _

namespace Ty

/-- The types directly inside a type. -/
def parts : Ty → List Ty
  | .struct _ fields => fields.map (·.2)
  | .enum _ variants => variants.filterMap (·.2)
  | .oneOf members => members
  | _ => []

theorem sizeOf_lt_of_mem_parts {s t : Ty} (h : s ∈ t.parts) : sizeOf s < sizeOf t := by
  cases t with
  | struct name fields =>
    obtain ⟨e, he, rfl⟩ := List.mem_map.1 h
    exact sizeOf_lt_struct he
  | enum name variants =>
    obtain ⟨e, he, hs⟩ := List.mem_filterMap.1 h
    exact sizeOf_lt_enum he hs
  | oneOf members => exact sizeOf_lt_oneOf h
  | _ => cases h

theorem induction_on_parts {P : Ty → Prop} (step : ∀ t, (∀ s ∈ t.parts, P s) → P t) (t : Ty) :
    P t := by
  induction hn : sizeOf t using Nat.strong_induction_on generalizing t with
  | _ n ih => exact step t fun s hs => ih _ (hn ▸ sizeOf_lt_of_mem_parts hs) s rfl

/-- What holds of two types if it holds of the types inside them, whichever side they are on. -/
theorem induction_on_both {P : Ty → Ty → Prop}
    (step : ∀ a b, (∀ s ∈ a.parts, ∀ t ∈ b.parts, P s t ∧ P t s) → P a b) (a b : Ty) : P a b := by
  induction hn : sizeOf a + sizeOf b using Nat.strong_induction_on generalizing a b with
  | _ n ih =>
    refine step a b fun s hs t ht => ?_
    have hlt := sizeOf_lt_of_mem_parts hs
    have hlt' := sizeOf_lt_of_mem_parts ht
    exact ⟨ih _ (by omega) s t rfl, ih _ (by omega) t s rfl⟩

inductive Everywhere (C : Ty → Prop) : Ty → Prop
  | intro {t : Ty} (here : C t) (inside : ∀ s ∈ t.parts, Everywhere C s) : Everywhere C t

section Parts
variable {C : Ty → Prop} {name : String} {fields : List (String × Ty)}
  {variants : List (String × Option Ty)} {t : Ty}

theorem Everywhere.here (h : Everywhere C t) : C t := by
  cases h with
  | intro here _ => exact here

theorem Everywhere.inside (h : Everywhere C t) : ∀ s ∈ t.parts, Everywhere C s := by
  cases h with
  | intro _ inside => exact inside

theorem everywhere_of_parts_nil (h : t.parts = []) (here : C t) : Everywhere C t :=
  .intro here fun s hs => by
    rw [h] at hs
    cases hs

theorem everywhere_struct_iff : Everywhere C (.struct name fields) ↔
    C (.struct name fields) ∧ ∀ entry ∈ fields, Everywhere C entry.2 := by
  constructor
  · intro h
    exact ⟨h.here, fun entry hentry => h.inside _ (List.mem_map_of_mem hentry)⟩
  · intro h
    exact .intro h.1 (List.forall_mem_map.2 h.2)

theorem everywhere_enum_iff : Everywhere C (.enum name variants) ↔
    C (.enum name variants) ∧ ∀ entry ∈ variants, ∀ t, entry.2 = some t → Everywhere C t := by
  constructor
  · intro h
    exact ⟨h.here, fun entry hentry t ht => h.inside _ (List.mem_filterMap.2 ⟨entry, hentry, ht⟩)⟩
  · intro h
    refine .intro h.1 fun s hs => ?_
    obtain ⟨entry, hentry, ht⟩ := List.mem_filterMap.1 hs
    exact h.2 entry hentry s ht

theorem everywhere_and_iff {D : Ty → Prop} :
    Everywhere (fun t => C t ∧ D t) t ↔ Everywhere C t ∧ Everywhere D t := by
  constructor
  · intro h
    induction h with
    | intro here _ ih =>
      exact ⟨.intro here.1 fun s hs => (ih s hs).1, .intro here.2 fun s hs => (ih s hs).2⟩
  · rintro ⟨hc, hd⟩
    induction hc with
    | intro here _ ih => exact .intro ⟨here, hd.here⟩ fun s hs => ih s hs (hd.inside s hs)

end Parts

/-- What unions and intersections need of a condition on one layer, together with a condition on
numeric sets that are still to be united. -/
structure Kept (C : Ty → Prop) (N : NumericSet → Prop) : Prop where
  any : C .any
  never : C .never
  number : C .number
  string : C .string
  stringLiteral : ∀ content, C (.stringLiteral content)
  set : ∀ {set}, C (.numeric set) → N set
  numeric : ∀ {set}, N set → (Ty.numeric set).Filled → C (.numeric set)
  union : ∀ {a b}, N a → N b → N (a.union b)
  intersect : ∀ {a b}, N a → N b → N (a.intersect b)
  struct : ∀ {name fields common}, C (.struct name fields) →
    Entries.names common = Entries.names fields → C (.struct name common)
  enum : ∀ {name variants common}, C (.enum name variants) → common ≠ [] →
    (Entries.names common).Sublist (Entries.names variants) → C (.enum name common)
  merge : ∀ {name variants others} join, C (.enum name variants) → C (.enum name others) →
    C (.enum name (Gathered.mergeVariants join variants others))
  oneOf : ∀ {members}, 2 ≤ members.length → Minimal members → C (.oneOf members)

variable {C : Ty → Prop} {N : NumericSet → Prop}

theorem Kept.and {D : Ty → Prop} {M : NumericSet → Prop} (hc : Kept C N) (hd : Kept D M) :
    Kept (fun t => C t ∧ D t) (fun set => N set ∧ M set) where
  any := ⟨hc.any, hd.any⟩
  never := ⟨hc.never, hd.never⟩
  number := ⟨hc.number, hd.number⟩
  string := ⟨hc.string, hd.string⟩
  stringLiteral content := ⟨hc.stringLiteral content, hd.stringLiteral content⟩
  set h := ⟨hc.set h.1, hd.set h.2⟩
  numeric h hfilled := ⟨hc.numeric h.1 hfilled, hd.numeric h.2 hfilled⟩
  union ha hb := ⟨hc.union ha.1 hb.1, hd.union ha.2 hb.2⟩
  intersect ha hb := ⟨hc.intersect ha.1 hb.1, hd.intersect ha.2 hb.2⟩
  struct h hnames := ⟨hc.struct h.1 hnames, hd.struct h.2 hnames⟩
  enum h hne hnames := ⟨hc.enum h.1 hne hnames, hd.enum h.2 hne hnames⟩
  merge join ha hb := ⟨hc.merge join ha.1 hb.1, hd.merge join ha.2 hb.2⟩
  oneOf hlength hminimal := ⟨hc.oneOf hlength hminimal, hd.oneOf hlength hminimal⟩

theorem Kept.ofNumericSet (hk : Kept C N) {set : NumericSet} (h : N set) :
    Everywhere C (ofNumericSet set) := by
  rcases Gathered.ofNumericSet_cases set with hof | hof | ⟨hof, hfilled⟩
  · rw [hof]
    exact everywhere_of_parts_nil rfl hk.never
  · rw [hof]
    exact everywhere_of_parts_nil rfl hk.number
  · rw [hof]
    exact everywhere_of_parts_nil rfl (hk.numeric h hfilled)

namespace Gathered
variable {join : Ty → Ty → Ty} {g : Gathered}

/-- The condition holds everywhere in what has been gathered. -/
structure Holds (C : Ty → Prop) (N : NumericSet → Prop) (g : Gathered) : Prop where
  numeric : ∀ set, g.numeric = some set → N set
  enums : ∀ e ∈ g.enums, Everywhere C (.enum e.1 e.2)
  structs : ∀ s ∈ g.structs, Everywhere C (.struct s.1 s.2)

theorem holds_empty : Holds C N .empty where
  numeric set h := by cases h
  enums e h := by cases h
  structs s h := by cases h

/-- A payload type of merged variants is one of either side, or joins one of each side. -/
theorem exists_payload_of_mergeVariants {variants others : List (String × Option Ty)}
    {entry : String × Option Ty} {t : Ty} (hentry : entry ∈ mergeVariants join variants others)
    (ht : entry.2 = some t) :
    (∃ e ∈ variants, e.2 = some t) ∨ (∃ e ∈ others, e.2 = some t) ∨
      ∃ e ∈ variants, ∃ f ∈ others, ∃ a b, e.2 = some a ∧ f.2 = some b ∧ t = join a b := by
  rw [mergeVariants_eq] at hentry
  rcases Entries.mem_insertAll _ hentry with ⟨f, hf, rfl⟩ | hentry
  · simp only [mergePayload] at ht
    split at ht
    · exact .inr (.inl ⟨f, hf, ht⟩)
    · rename_i a b hget hpayload
      cases ht
      exact .inr (.inr ⟨_, Entries.mem_of_get? hget, f, hf, a, b, rfl, hpayload, rfl⟩)
    · cases ht
  · exact .inl ⟨entry, hentry, ht⟩

section Join
variable (hk : Kept C N)
  (hjoin : ∀ a b, Everywhere C a → Everywhere C b → Everywhere C (join a b))
include hk hjoin

theorem everywhere_mergeVariants {name : String} {variants others : List (String × Option Ty)}
    (hv : Everywhere C (.enum name variants)) (ho : Everywhere C (.enum name others)) :
    Everywhere C (.enum name (mergeVariants join variants others)) := by
  refine everywhere_enum_iff.2 ⟨hk.merge join hv.here ho.here, fun entry hentry t ht => ?_⟩
  rw [everywhere_enum_iff] at hv ho
  rcases exists_payload_of_mergeVariants hentry ht with ⟨e, he, ht⟩ | ⟨e, he, ht⟩ | hjoined
  · exact hv.2 e he t ht
  · exact ho.2 e he t ht
  · obtain ⟨e, he, f, hf, a, b, ha, hb, rfl⟩ := hjoined
    exact hjoin a b (hv.2 e he a ha) (ho.2 f hf b hb)

theorem everywhere_addEnum {name : String} {variants : List (String × Option Ty)}
    {enums : List (String × List (String × Option Ty))}
    (hv : Everywhere C (.enum name variants)) (h : ∀ e ∈ enums, Everywhere C (.enum e.1 e.2)) :
    ∀ e ∈ addEnum join name variants enums, Everywhere C (.enum e.1 e.2) := by
  induction enums with
  | nil => simpa [addEnum] using hv
  | cons entry enums ih =>
    obtain ⟨other, present⟩ := entry
    have hfirst := h _ List.mem_cons_self
    have hrest := fun e he => h e (List.mem_cons_of_mem _ he)
    by_cases hname : other = name
    · subst hname
      rw [addEnum, if_pos (beq_self_eq_true other)]
      exact List.forall_mem_cons.2 ⟨everywhere_mergeVariants hk hjoin hfirst hv, hrest⟩
    · rw [addEnum, if_neg (by simpa using hname)]
      exact List.forall_mem_cons.2 ⟨hfirst, ih hrest⟩

theorem holds_add (hg : g.Holds C N) {t : Ty} (ht : Everywhere C t) :
    (add join g t).Holds C N := by
  cases t with
  | any | never | number | string | oneOf => exact ⟨hg.numeric, hg.enums, hg.structs⟩
  | stringLiteral content =>
    simp only [add]
    split
    · exact hg
    · exact ⟨hg.numeric, hg.enums, hg.structs⟩
  | numeric set =>
    refine ⟨fun s hs => ?_, hg.enums, hg.structs⟩
    obtain rfl := Option.some.inj hs
    have hset := hk.set ht.here
    cases hpresent : g.numeric with
    | none => exact hset
    | some present => exact hk.union (hg.numeric present hpresent) hset
  | struct name fields =>
    refine ⟨hg.numeric, hg.enums, fun s hs => ?_⟩
    rcases mem_addStruct hs with rfl | hs
    · exact ht
    · exact hg.structs s hs
  | enum name variants =>
    exact ⟨hg.numeric, everywhere_addEnum hk hjoin ht hg.enums, hg.structs⟩

end Join

theorem Holds.memberList (hg : g.Holds C N) (hk : Kept C N) :
    ∀ t ∈ g.memberList, Everywhere C t := by
  intro t ht
  simp only [Gathered.memberList] at ht
  rcases List.mem_append.1 ht with ht | ht
  · rcases List.mem_append.1 ht with ht | ht
    · rcases List.mem_append.1 ht with ht | ht
      · rcases numericMembers_cases g with hcase | hcase | ⟨set, hset, hcase, hfilled⟩
        · rw [hcase] at ht
          cases ht
        · rw [hcase, List.mem_singleton] at ht
          exact ht ▸ everywhere_of_parts_nil rfl hk.number
        · rw [hcase, List.mem_singleton] at ht
          exact ht ▸ everywhere_of_parts_nil rfl (hk.numeric (hg.numeric set hset) hfilled)
      · split at ht
        · exact List.mem_singleton.1 ht ▸ everywhere_of_parts_nil rfl hk.string
        · obtain ⟨content, -, rfl⟩ := List.mem_map.1 ht
          exact everywhere_of_parts_nil rfl (hk.stringLiteral content)
    · obtain ⟨e, he, rfl⟩ := List.mem_map.1 ht
      exact hg.enums e (List.mem_filter.1 he).1
  · obtain ⟨s, hs, rfl⟩ := List.mem_map.1 ht
    exact hg.structs s hs

theorem Holds.build (hg : g.Holds C N) (hk : Kept C N) (hd : g.Distinct) :
    Everywhere C g.build := by
  have hmembers := hg.memberList hk
  rcases build_cases g with ⟨-, hb⟩ | ⟨-, ⟨-, hb⟩ | ⟨only, honly, hb⟩ | ⟨hlength, hb⟩⟩
  · exact hb ▸ everywhere_of_parts_nil rfl hk.any
  · exact hb ▸ everywhere_of_parts_nil rfl hk.never
  · exact hb ▸ hmembers only (by simp [honly])
  · exact hb ▸ .intro (hk.oneOf hlength (minimal_memberList hd)) hmembers

end Gathered

section Union

theorem Everywhere.flatten {s t : Ty} (ht : Everywhere C t) (hs : s ∈ flatten t) :
    Everywhere C s := by
  induction ht with
  | @intro t here inside ih =>
    cases t with
    | oneOf members =>
      rw [Ty.flatten, flattenAll_eq] at hs
      obtain ⟨member, hmember, hs⟩ := List.mem_flatMap.1 hs
      exact ih member hmember hs
    | _ => exact List.mem_singleton.1 hs ▸ .intro here inside

theorem everywhere_unionAt (hk : Kept C N) (level : ℕ) {types : List Ty}
    (h : ∀ t ∈ types, Everywhere C t) : Everywhere C (unionAt level types) := by
  induction level generalizing types with
  | zero => exact everywhere_of_parts_nil rfl hk.any
  | succ level ih =>
    have hjoin : ∀ a b, Everywhere C a → Everywhere C b →
        Everywhere C (unionAt level [a, b]) := by
      intro a b ha hb
      exact ih (by simp [ha, hb])
    have hflat : ∀ t ∈ flattenAll types, Everywhere C t := by
      intro t ht
      rw [flattenAll_eq] at ht
      obtain ⟨s, hs, ht⟩ := List.mem_flatMap.1 ht
      exact (h s hs).flatten ht
    rw [unionAt]
    refine Gathered.Holds.build ?_ hk (Gathered.distinct_foldl_add _)
    exact List.foldlRecOn (flattenAll types) _ Gathered.holds_empty
      fun g hg t ht => Gathered.holds_add hk hjoin hg (hflat t ht)

theorem everywhere_unionAll (hk : Kept C N) {types : List Ty} (h : ∀ t ∈ types, Everywhere C t) :
    Everywhere C (unionAll types) :=
  everywhere_unionAt hk _ h

theorem everywhere_union (hk : Kept C N) {a b : Ty} (ha : Everywhere C a) (hb : Everywhere C b) :
    Everywhere C (union a b) :=
  everywhere_unionAll hk (by simp [ha, hb])

end Union

section Intersection

theorem exists_of_mem_intersectFields {fields others common : List (String × Ty)}
    (h : intersectFields fields others = some common) {entry : String × Ty}
    (hentry : entry ∈ common) : ∃ t t', (entry.1, t) ∈ fields ∧ (entry.1, t') ∈ others ∧
      entry.2 = intersect t t' := by
  induction fields generalizing common with
  | nil =>
    rw [intersectFields] at h
    cases h
    cases hentry
  | cons first fields ih =>
    obtain ⟨field, t⟩ := first
    rw [intersectFields_cons, Option.bind_eq_some_iff] at h
    obtain ⟨t', ht', h⟩ := h
    split at h
    · cases h
    · obtain ⟨rest, hrest, rfl⟩ := Option.map_eq_some_iff.1 h
      rcases List.mem_cons.1 hentry with rfl | hentry
      · exact ⟨t, t', List.mem_cons_self, Entries.mem_of_get? ht', rfl⟩
      · obtain ⟨s, s', hs, hs', heq⟩ := ih hrest hentry
        exact ⟨s, s', List.mem_cons_of_mem _ hs, hs', heq⟩

theorem commonPayload_eq_some {listed other : Option Ty} {t : Ty}
    (h : commonPayload listed other = some (some t)) : listed = some t ∨ other = some t ∨
      ∃ s s', listed = some s ∧ other = some s' ∧ t = intersect s s' := by
  cases other with
  | none =>
    cases h
    exact .inl rfl
  | some s' =>
    cases listed with
    | none =>
      cases h
      exact .inr (.inl rfl)
    | some s =>
      rw [commonPayload_some] at h
      split at h
      · cases h
      · cases h
        exact .inr (.inr ⟨s, s', rfl, rfl, rfl⟩)

/-- A payload type of common variants is one of either side, or common to one of each side. -/
theorem exists_payload_of_intersectVariants {variants others : List (String × Option Ty)}
    {entry : String × Option Ty} {t : Ty} (hentry : entry ∈ intersectVariants variants others)
    (ht : entry.2 = some t) :
    (∃ e ∈ variants, e.2 = some t) ∨ (∃ e ∈ others, e.2 = some t) ∨
      ∃ e ∈ variants, ∃ f ∈ others, ∃ a b, e.2 = some a ∧ f.2 = some b ∧ t = intersect a b := by
  rw [intersectVariants_eq] at hentry
  obtain ⟨e, he, hentry⟩ := List.mem_filterMap.1 hentry
  obtain ⟨payload, hcommon, rfl⟩ := Option.map_eq_some_iff.1 hentry
  obtain rfl : payload = some t := ht
  obtain ⟨other, hother, hcommon⟩ := Option.bind_eq_some_iff.1 hcommon
  have hf := Entries.mem_of_get? hother
  rcases commonPayload_eq_some hcommon with hlisted | rfl | ⟨a, b, ha, rfl, rfl⟩
  · exact .inl ⟨e, he, hlisted⟩
  · exact .inr (.inl ⟨_, hf, rfl⟩)
  · exact .inr (.inr ⟨e, he, _, hf, a, b, ha, rfl, rfl⟩)

variable {name : String}

theorem Everywhere.struct_common (hk : Kept C N) {fields others common : List (String × Ty)}
    (ha : Everywhere C (.struct name fields)) (h : intersectFields fields others = some common)
    (ih : ∀ e ∈ fields, ∀ f ∈ others, Everywhere C (intersect e.2 f.2)) :
    Everywhere C (.struct name common) := by
  refine everywhere_struct_iff.2
    ⟨hk.struct ha.here (intersectFields_eq_some h).1, fun entry hentry => ?_⟩
  obtain ⟨t, t', ht, ht', heq⟩ := exists_of_mem_intersectFields h hentry
  exact heq ▸ ih _ ht _ ht'

theorem Everywhere.enum_common (hk : Kept C N) {variants others : List (String × Option Ty)}
    {other : String} (ha : Everywhere C (.enum name variants))
    (hb : Everywhere C (.enum other others)) (hne : intersectVariants variants others ≠ [])
    (ih : ∀ e ∈ variants, ∀ f ∈ others, ∀ a b, e.2 = some a → f.2 = some b →
      Everywhere C (intersect a b)) :
    Everywhere C (.enum name (intersectVariants variants others)) := by
  have hnames : (Entries.names (intersectVariants variants others)).Sublist
      (Entries.names variants) := by
    rw [intersectVariants_eq]
    exact Entries.sublist_names_mapEntries _ variants
  refine everywhere_enum_iff.2 ⟨hk.enum ha.here hne hnames, fun entry hentry t ht => ?_⟩
  rw [everywhere_enum_iff] at ha hb
  rcases exists_payload_of_intersectVariants hentry ht with ⟨e, he, ht⟩ | ⟨e, he, ht⟩ | hcommon
  · exact ha.2 e he t ht
  · exact hb.2 e he t ht
  · obtain ⟨e, he, f, hf, a, b, hea, hfb, rfl⟩ := hcommon
    exact ih e he f hf a b hea hfb

theorem everywhere_intersect (hk : Kept C N) {a b : Ty} (ha : Everywhere C a)
    (hb : Everywhere C b) : Everywhere C (intersect a b) := by
  -- On the size of both types, as the intersection itself.
  induction hn : sizeOf a + sizeOf b using Nat.strong_induction_on generalizing a b with
  | _ n ih =>
    subst hn
    have hmembers : ∀ {members t}, Everywhere C (.oneOf members) → Everywhere C t →
        sizeOf (Ty.oneOf members) + sizeOf t = sizeOf a + sizeOf b →
          Everywhere C (unionAll (intersectAll members t)) := by
      intro members t hm ht hsizes
      rw [intersectAll_eq]
      refine everywhere_unionAll hk (List.forall_mem_map.2 fun s hs => ?_)
      have hlt := Nat.add_lt_add_right (sizeOf_lt_oneOf hs) (sizeOf t)
      exact ih _ (hlt.trans_eq hsizes) (hm.inside s hs) ht rfl
    have hcases := intersection a b
    generalize intersect a b = c at hcases
    cases hcases with
    | neverLeft | neverRight | literals | structEmpty | structs | enumEmpty | enums | apart =>
      exact everywhere_of_parts_nil rfl hk.never
    | anyLeft | numberNumeric | stringLiteral => exact hb
    | anyRight | number | numericNumber | string | literalString | literal => exact ha
    | unionLeft => exact hmembers ha hb rfl
    | unionRight => exact hmembers hb ha (Nat.add_comm _ _)
    | numeric => exact hk.ofNumericSet (hk.intersect (hk.set ha.here) (hk.set hb.here))
    | struct _ left =>
      refine ha.struct_common hk left fun e he f hf => ?_
      exact ih _ (Nat.add_lt_add (sizeOf_lt_struct he) (sizeOf_lt_struct hf))
        ((everywhere_struct_iff.1 ha).2 e he) ((everywhere_struct_iff.1 hb).2 f hf) rfl
    | enum left =>
      refine ha.enum_common hk hb left fun e he f hf t t' ht ht' => ?_
      exact ih _ (Nat.add_lt_add (sizeOf_lt_enum he ht) (sizeOf_lt_enum hf ht'))
        ((everywhere_enum_iff.1 ha).2 e he t ht) ((everywhere_enum_iff.1 hb).2 f hf t' ht') rfl

end Intersection

section Difference
variable {a b s t : Ty}

theorem Everywhere.of_mem_members (h : Everywhere C t) (hs : s ∈ t.members) : Everywhere C s := by
  cases t with
  | oneOf members => exact h.inside s hs
  | _ => exact List.mem_singleton.1 hs ▸ h

/-- Where an enum without variants meets the condition, what is left of a member keeps it. -/
theorem Everywhere.remainder (hk : Kept C N) (hempty : ∀ name, C (.enum name []))
    (h : Everywhere C s) (ht : remainder? b s = some t) : Everywhere C t := by
  unfold remainder? at ht
  split at ht
  · cases ht
  · split at ht
    · rename_i name variants _
      cases ht
      refine everywhere_enum_iff.2 ⟨?_, fun entry hentry =>
        (everywhere_enum_iff.1 h).2 entry (List.mem_filter.1 hentry).1⟩
      by_cases hnil : variants.filter (fun v => !(Ty.enum name [v]).isSubtype b) = []
      · rw [hnil]
        exact hempty name
      · exact hk.enum h.here hnil (List.filter_sublist.map _)
    · exact Option.some.inj ht ▸ h

theorem everywhere_without (hk : Kept C N) (hempty : ∀ name, C (.enum name []))
    (ha : Everywhere C a) : Everywhere C (without a b) := by
  refine everywhere_unionAll hk fun t ht => ?_
  obtain ⟨member, hmember, ht⟩ := List.mem_filterMap.1 ht
  exact (ha.of_mem_members hmember).remainder hk hempty ht

end Difference

end Ty
end TypedFlow
