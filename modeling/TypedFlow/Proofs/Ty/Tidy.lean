import TypedFlow.Proofs.Ty.Layers

/-!
# Unions are minimal

However types are put together by constructors and operations, every union in them, at any depth,
has two members or more, none of which covers another. Merging payload types is a union of its own,
so that what holds of unions holds of them too; the level that bounds the merging is never reached.
-/
namespace TypedFlow.Ty

section Levels
variable {d : ℕ}

theorem payloadDepth_enum_le {name : String} {variants : List (String × Option Ty)} :
    payloadDepth (.enum name variants) ≤ d ↔
      0 < d ∧ ∀ entry ∈ variants, ∀ t, entry.2 = some t → payloadDepth t < d := by
  cases d with
  | zero => simp [payloadDepth]
  | succ d =>
    simp only [payloadDepth, Nat.add_le_add_iff_right, payloadDepthVariants_le, Nat.lt_succ_iff,
      Nat.zero_le, true_and]

theorem payloadDepth_le_of_mem_flatten {s t : Ty} (hs : s ∈ flatten t) :
    payloadDepth s ≤ payloadDepth t := by
  induction t using induction_on_parts with
  | step t ih =>
    cases t with
    | oneOf members =>
      rw [flatten, flattenAll_eq] at hs
      obtain ⟨member, hmember, hs⟩ := List.mem_flatMap.1 hs
      exact (ih member hmember hs).trans (payloadDepthAll_le.1 le_rfl member hmember)
    | _ => rw [List.mem_singleton.1 hs]

theorem payloadDepth_le_of_mem_flattenAll {types : List Ty} (h : payloadDepthAll types ≤ d) :
    ∀ t ∈ flattenAll types, payloadDepth t ≤ d := by
  intro t ht
  rw [flattenAll_eq] at ht
  obtain ⟨s, hs, ht⟩ := List.mem_flatMap.1 ht
  exact (payloadDepth_le_of_mem_flatten ht).trans (payloadDepthAll_le.1 h s hs)

namespace Gathered
variable {join join' : Ty → Ty → Ty} {g : Gathered}

/-- The payload types of what has been gathered nest at most to a depth. -/
def Shallow (d : ℕ) (g : Gathered) : Prop := ∀ e ∈ g.enums, payloadDepth (.enum e.1 e.2) ≤ d

/-- `join` does not let payload types nest further than a depth. -/
def StaysBelow (join : Ty → Ty → Ty) (d : ℕ) : Prop :=
  ∀ a b, payloadDepth a < d → payloadDepth b < d → payloadDepth (join a b) < d

section Enums
variable {name : String} {variants : List (String × Option Ty)}
  {enums : List (String × List (String × Option Ty))} (hjoin : StaysBelow join d)
  (ht : payloadDepth (.enum name variants) ≤ d)
  (h : ∀ e ∈ enums, payloadDepth (.enum e.1 e.2) ≤ d)
include ht h

include hjoin in
theorem shallow_addEnum :
    ∀ e ∈ addEnum join name variants enums, payloadDepth (.enum e.1 e.2) ≤ d := by
  induction enums with
  | nil => simpa [addEnum] using ht
  | cons entry enums ih =>
    obtain ⟨other, present⟩ := entry
    obtain ⟨hfirst, hrest⟩ := List.forall_mem_cons.1 h
    by_cases hname : other = name
    · subst hname
      rw [addEnum, if_pos (beq_self_eq_true other)]
      refine List.forall_mem_cons.2 ⟨?_, hrest⟩
      rw [payloadDepth_enum_le] at hfirst ht ⊢
      refine ⟨ht.1, fun entry hentry s hs => ?_⟩
      rcases exists_payload_of_mergeVariants hentry hs with ⟨e, he, hs⟩ | ⟨e, he, hs⟩ | hjoined
      · exact hfirst.2 e he s hs
      · exact ht.2 e he s hs
      · obtain ⟨e, he, f, hf, a, b, ha, hb, rfl⟩ := hjoined
        exact hjoin a b (hfirst.2 e he a ha) (ht.2 f hf b hb)
    · rw [addEnum, if_neg (by simpa using hname)]
      exact List.forall_mem_cons.2 ⟨hfirst, ih hrest⟩

theorem addEnum_congr
    (hsame : ∀ a b, payloadDepth a < d → payloadDepth b < d → join a b = join' a b) :
    addEnum join name variants enums = addEnum join' name variants enums := by
  induction enums with
  | nil => rfl
  | cons entry enums ih =>
    obtain ⟨other, present⟩ := entry
    obtain ⟨hfirst, hrest⟩ := List.forall_mem_cons.1 h
    have hmerge : mergeVariants join present variants = mergeVariants join' present variants := by
      refine List.foldl_ext _ _ _ fun merged entry hentry => congrArg (Entries.insert _ · _) ?_
      rw [payloadDepth_enum_le] at hfirst ht
      simp only [mergePayload]
      split
      · rfl
      · rename_i a b hget hpayload
        exact congrArg some (hsame a b
          (hfirst.2 _ (Entries.mem_of_get? hget) a rfl) (ht.2 entry hentry b hpayload))
      · rfl
    rw [addEnum, addEnum, ih hrest, hmerge]

end Enums

theorem shallow_add (hjoin : StaysBelow join d) (hg : g.Shallow d) {t : Ty}
    (ht : payloadDepth t ≤ d) : (add join g t).Shallow d := by
  cases t with
  | enum name variants => exact shallow_addEnum hjoin ht hg
  | stringLiteral content =>
    simp only [add]
    split
    · exact hg
    · exact hg
  | _ => exact hg

theorem payloadDepth_build (hg : g.Shallow d) : payloadDepth g.build ≤ d := by
  have hmembers : ∀ t ∈ g.memberList, payloadDepth t ≤ d := by
    intro t ht
    simp only [memberList] at ht
    rcases List.mem_append.1 ht with ht | ht
    · rcases List.mem_append.1 ht with ht | ht
      · -- neither numbers nor texts have payloads
        have hrank : t.rank ≤ 1 := by
          rcases List.mem_append.1 ht with ht | ht
          · exact ((minimal_numericMembers g).2 t ht).trans_le (Nat.zero_le 1)
          · split at ht
            · rw [List.mem_singleton.1 ht, rank]
            · obtain ⟨content, -, rfl⟩ := List.mem_map.1 ht
              exact le_rfl
        cases t with
        | any | never | enum | struct | oneOf => exact absurd hrank (by simp [rank])
        | _ => exact Nat.zero_le d
      · obtain ⟨e, he, rfl⟩ := List.mem_map.1 ht
        exact hg e (List.mem_filter.1 he).1
    · obtain ⟨s, -, rfl⟩ := List.mem_map.1 ht
      exact Nat.zero_le d
  rcases build_cases g with ⟨-, hb⟩ | ⟨-, ⟨-, hb⟩ | ⟨only, honly, hb⟩ | ⟨-, hb⟩⟩
  · exact hb ▸ Nat.zero_le d
  · exact hb ▸ Nat.zero_le d
  · exact hb ▸ hmembers only (by simp [honly])
  · rw [hb, payloadDepth, payloadDepthAll_le]
    exact hmembers

/-- Payload types are joined in the same way at depths where the joins agree. -/
theorem foldl_add_congr (hjoin : StaysBelow join d)
    (hsame : ∀ a b, payloadDepth a < d → payloadDepth b < d → join a b = join' a b)
    (hg : g.Shallow d) {types : List Ty} (h : ∀ t ∈ types, payloadDepth t ≤ d) :
    types.foldl (add join) g = types.foldl (add join') g := by
  induction types generalizing g with
  | nil => rfl
  | cons t types ih =>
    obtain ⟨ht, hrest⟩ := List.forall_mem_cons.1 h
    have hadd : add join g t = add join' g t := by
      cases t with
      | enum name variants => simp only [add, addEnum_congr ht hg hsame]
      | _ => rfl
    rw [List.foldl_cons, List.foldl_cons, ← hadd]
    exact ih (shallow_add hjoin hg ht) hrest

end Gathered

theorem payloadDepthAll_pair {a b : Ty} :
    payloadDepthAll [a, b] < d ↔ payloadDepth a < d ∧ payloadDepth b < d := by
  simp only [payloadDepthAll, Nat.max_zero, Nat.max_lt]

/-- Unions do not let payload types nest further. -/
theorem payloadDepth_unionAt (level : ℕ) {types : List Ty} :
    payloadDepth (unionAt level types) ≤ payloadDepthAll types := by
  induction level generalizing types with
  | zero => exact Nat.zero_le _
  | succ level ih =>
    have hjoin : Gathered.StaysBelow (fun a b => unionAt level [a, b]) (payloadDepthAll types) :=
      fun a b ha hb => ih.trans_lt (payloadDepthAll_pair.2 ⟨ha, hb⟩)
    rw [unionAt]
    refine Gathered.payloadDepth_build (List.foldlRecOn (flattenAll types) _ ?_ fun g hg t ht =>
      Gathered.shallow_add hjoin hg (payloadDepth_le_of_mem_flattenAll le_rfl t ht))
    exact fun e he => by cases he

theorem foldl_add_unionAt (level : ℕ) {join : Ty → Ty → Ty} {types : List Ty}
    (h : ∀ a b, payloadDepthAll [a, b] < payloadDepthAll types →
      unionAt level [a, b] = join a b) :
    (flattenAll types).foldl (Gathered.add fun a b => unionAt level [a, b]) .empty =
      (flattenAll types).foldl (Gathered.add join) .empty := by
  refine Gathered.foldl_add_congr (d := payloadDepthAll types)
    (fun a b ha hb => (payloadDepth_unionAt level).trans_lt (payloadDepthAll_pair.2 ⟨ha, hb⟩))
    (fun a b ha hb => h a b (payloadDepthAll_pair.2 ⟨ha, hb⟩)) ?_
    (payloadDepth_le_of_mem_flattenAll le_rfl)
  exact fun e he => by cases he

/-- Unions at any two levels above the depth of the payload types are the same. -/
theorem unionAt_eq {level level' : ℕ} {types : List Ty} (h : payloadDepthAll types < level)
    (h' : payloadDepthAll types < level') : unionAt level types = unionAt level' types := by
  induction level generalizing level' types with
  | zero => exact absurd h (Nat.not_lt_zero _)
  | succ level ih =>
    cases level' with
    | zero => exact absurd h' (Nat.not_lt_zero _)
    | succ level' =>
      have hsame : ∀ a b, payloadDepthAll [a, b] < payloadDepthAll types →
          unionAt level [a, b] = unionAt level' [a, b] :=
        fun a b hpair => ih (by omega) (by omega)
      rw [unionAt, unionAt, foldl_add_unionAt level hsame]

/-- A union gathers the types, and joins payload types by unions. -/
theorem unionAll_eq (types : List Ty) :
    unionAll types = ((flattenAll types).foldl (Gathered.add union) .empty).build := by
  rw [unionAll, unionAt, foldl_add_unionAt _ fun a b hpair => unionAt_eq hpair (Nat.lt_succ_self _)]
  rfl

end Levels

/-- A union has two members or more, and they are minimal. -/
def TidyLayer : Ty → Prop
  | .oneOf members => 2 ≤ members.length ∧ Minimal members
  | _ => True

/-- Every union in the type is minimal. -/
def Tidy (t : Ty) : Prop := Everywhere TidyLayer t

theorem kept_tidyLayer : Kept TidyLayer fun _ => True where
  any := trivial
  never := trivial
  number := trivial
  string := trivial
  stringLiteral _ := trivial
  set _ := trivial
  numeric _ _ := trivial
  union _ _ := trivial
  intersect _ _ := trivial
  struct _ _ := trivial
  enum _ _ _ := trivial
  merge _ _ _ := trivial
  oneOf hlength hminimal := ⟨hlength, hminimal⟩

theorem Tidy.minimal {members : List Ty} (h : (Ty.oneOf members).Tidy) : Minimal members := h.here.2

/-- What a union can be: a minimal union of two members or more, or a type that is no union and not
an empty enum. -/
def Concise : Ty → Prop
  | .oneOf members => 2 ≤ members.length ∧ Minimal members
  | t => t.Filled

theorem concise_of_filled {t : Ty} (hplain : t.Plain) (h : t.Filled) : t.Concise := by
  cases t with
  | oneOf members => exact absurd rfl (hplain members)
  | _ => exact h

section Union
variable {types : List Ty}

theorem minimal_gathered (types : List Ty) :
    Minimal ((flattenAll types).foldl (Gathered.add union) .empty).memberList :=
  Gathered.minimal_memberList (Gathered.distinct_foldl_add _)

theorem concise_unionAll (types : List Ty) : (unionAll types).Concise := by
  rw [unionAll_eq]
  have hminimal := minimal_gathered types
  rcases Gathered.build_cases ((flattenAll types).foldl (Gathered.add union) .empty) with
    ⟨-, hb⟩ | ⟨-, ⟨-, hb⟩ | ⟨only, honly, hb⟩ | ⟨hlength, hb⟩⟩
  · exact hb ▸ trivial
  · exact hb ▸ trivial
  · have hmem := honly ▸ List.mem_singleton_self only
    exact hb ▸ concise_of_filled (hminimal.single only hmem).plain (hminimal.filled only hmem)
  · exact hb ▸ ⟨hlength, hminimal⟩

theorem any_foldl_add {join : Ty → Ty → Ty} {g : Gathered} :
    (types.foldl (Gathered.add join) g).any = true ↔ g.any = true ∨ .any ∈ types := by
  induction types generalizing g with
  | nil => simp
  | cons t types ih =>
    rw [List.foldl_cons, ih, List.mem_cons]
    cases t with
    | any => simp [Gathered.add]
    | stringLiteral content =>
      simp only [Gathered.add]
      split
      · simp
      · simp
    | _ => simp [Gathered.add]

theorem unionAll_eq_any_iff_flatten : unionAll types = .any ↔ .any ∈ flattenAll types := by
  have hminimal := minimal_gathered types
  have hany : ((flattenAll types).foldl (Gathered.add union) .empty).any = true ↔
      .any ∈ flattenAll types := by
    rw [any_foldl_add, Gathered.empty, Bool.false_eq_true, false_or]
  rw [unionAll_eq, ← hany]
  rcases Gathered.build_cases ((flattenAll types).foldl (Gathered.add union) .empty) with
    ⟨hg, hb⟩ | ⟨hg, hcases⟩
  · exact ⟨fun _ => hg, fun _ => hb⟩
  · refine ⟨fun heq => ?_, fun h => ?_⟩
    · rcases hcases with ⟨-, hb⟩ | ⟨only, honly, hb⟩ | ⟨-, hb⟩
      · cases hb.symm.trans heq
      · have hsingle := hminimal.single only (honly ▸ List.mem_singleton_self only)
        exact absurd (hb.symm.trans heq) hsingle.notAny
      · cases hb.symm.trans heq
    · cases hg.symm.trans h

/-- Minimal members are not flattened further. -/
theorem Minimal.flattenAll {members : List Ty} (h : Minimal members) :
    Ty.flattenAll members = members := by
  rw [flattenAll_eq]
  refine (List.flatMap_congr fun s hs => flatten_eq_self (h.single s hs).plain).trans ?_
  exact List.flatMap_singleton' members

theorem Tidy.flatten {t : Ty} (h : t.Tidy) : Ty.flatten t = t.members := by
  cases t with
  | oneOf members => exact h.minimal.flattenAll
  | _ => rfl

theorem any_mem_members_iff {t : Ty} (h : t.Tidy) : .any ∈ t.members ↔ .any = t := by
  cases t with
  | oneOf members =>
    exact ⟨fun hany => absurd rfl (h.minimal.single _ hany).notAny, fun heq => by cases heq⟩
  | _ => exact List.mem_singleton

theorem unionAll_eq_any_iff (h : ∀ t ∈ types, t.Tidy) : unionAll types = .any ↔ .any ∈ types := by
  rw [unionAll_eq_any_iff_flatten, flattenAll_eq, List.mem_flatMap]
  constructor
  · intro hh
    obtain ⟨t, ht, hany⟩ := hh
    rw [(h t ht).flatten, any_mem_members_iff (h t ht)] at hany
    exact hany ▸ ht
  · intro hany
    exact ⟨.any, hany, List.mem_singleton_self _⟩

theorem tidy_unionAll (h : ∀ t ∈ types, t.Tidy) : (unionAll types).Tidy :=
  everywhere_unionAll kept_tidyLayer h

theorem tidy_intersect {a b : Ty} (ha : a.Tidy) (hb : b.Tidy) : (intersect a b).Tidy :=
  everywhere_intersect kept_tidyLayer ha hb

theorem tidy_without {a b : Ty} (ha : a.Tidy) : (without a b).Tidy :=
  everywhere_without kept_tidyLayer (fun _ => trivial) ha

end Union

/-- The types that can be put together by constructors, from any numeric sets, and by operations,
and the types inside them. Unions come from operations only. -/
inductive Constructed : Ty → Prop
  | any : Constructed .any
  | never : Constructed .never
  | number : Constructed .number
  | string : Constructed .string
  | numeric (set : NumericSet) : Constructed (.numeric set)
  | stringLiteral (content : String) : Constructed (.stringLiteral content)
  | struct {name : String} {fields : List (String × Ty)}
      (each : ∀ entry ∈ fields, Constructed entry.2) : Constructed (.struct name fields)
  | enumOf {name : String} {variants : List (String × Option Ty)}
      (each : ∀ entry ∈ variants, ∀ t, entry.2 = some t → Constructed t) :
      Constructed (enumOf name variants)
  | unionAll {types : List Ty} (each : ∀ t ∈ types, Constructed t) : Constructed (unionAll types)
  | intersect {a b : Ty} (left : Constructed a) (right : Constructed b) :
      Constructed (intersect a b)
  | without {a b : Ty} (left : Constructed a) (right : Constructed b) : Constructed (without a b)
  | part {s t : Ty} (whole : Constructed t) (inside : s ∈ t.parts) : Constructed s

theorem Constructed.tidy {t : Ty} (h : t.Constructed) : t.Tidy := by
  induction h with
  | any | never | number | string | numeric | stringLiteral =>
    exact everywhere_of_parts_nil rfl trivial
  | struct _ ih => exact everywhere_struct_iff.2 ⟨trivial, ih⟩
  | enumOf _ ih =>
    exact everywhere_enum_iff.2 ⟨trivial, fun entry hentry =>
      ih entry (Entries.mem_of_mem_ofList hentry)⟩
  | unionAll _ ih => exact tidy_unionAll ih
  | intersect _ _ ihl ihr => exact tidy_intersect ihl ihr
  | without _ _ ihl _ => exact tidy_without ihl
  | part _ inside ih => exact ih.inside _ inside

/-- Only `any` without all of `any` taken away is `any`. -/
theorem without_eq_any_iff {a b : Ty} (ha : a.Tidy) :
    without a b = .any ↔ a = .any ∧ b ≠ .any := by
  have htidy : ∀ t ∈ a.members.filterMap (remainder? b), t.Tidy := by
    intro t ht
    obtain ⟨member, hmember, ht⟩ := List.mem_filterMap.1 ht
    exact (ha.of_mem_members hmember).remainder kept_tidyLayer (fun _ => trivial) ht
  rw [without, unionAll_eq_any_iff htidy, List.mem_filterMap]
  constructor
  · intro hh
    obtain ⟨member, hmember, hany⟩ := hh
    unfold remainder? at hany
    split at hany
    · cases hany
    · rename_i hnot
      split at hany
      · cases hany
      · cases hany
        refine ⟨((any_mem_members_iff ha).1 hmember).symm, ?_⟩
        rintro rfl
        exact hnot (by rw [isSubtype]; simp)
  · rintro ⟨rfl, hne⟩
    have hnot : isSubtype .any b = false := by
      rw [isSubtype]
      exact hne
    exact ⟨.any, List.mem_singleton_self _, by simp [remainder?, hnot]⟩

/-- Unions are in normal form: what a union or a difference makes is concise, `any` comes from
`any` only, payload types are joined by unions, and all unions in the results are minimal. -/
theorem unions_are_minimal {types : List Ty} (h : ∀ t ∈ types, t.Constructed) {a b : Ty}
    (ha : a.Constructed) (hb : b.Constructed) :
    (unionAll types).Concise ∧ (unionAll types = .any ↔ .any ∈ types) ∧ (unionAll types).Tidy ∧
      unionAll types = ((flattenAll types).foldl (Gathered.add union) .empty).build ∧
      (union a b).Concise ∧ (union a b = .any ↔ a = .any ∨ b = .any) ∧ (union a b).Tidy ∧
      (without a b).Concise ∧ (without a b = .any ↔ a = .any ∧ b ≠ .any) ∧ (without a b).Tidy ∧
      (intersect a b).Tidy := by
  have htypes : ∀ t ∈ types, t.Tidy := fun t ht => (h t ht).tidy
  have hpair : ∀ t ∈ [a, b], t.Tidy := by simp [ha.tidy, hb.tidy]
  have hunion : union a b = .any ↔ a = .any ∨ b = .any := by
    rw [union, unionAll_eq_any_iff hpair]
    simp [eq_comm]
  exact ⟨concise_unionAll types, unionAll_eq_any_iff htypes, tidy_unionAll htypes,
    unionAll_eq types, concise_unionAll _, hunion, tidy_unionAll hpair, concise_unionAll _,
    without_eq_any_iff ha.tidy, tidy_without ha.tidy, tidy_intersect ha.tidy hb.tidy⟩

theorem option_and_text_are_minimal :
    let option := enumOf "option" [("some", some string), ("none", none)]
    let on := enumOf "option" [("some", some (stringLiteral "on"))]
    let types := [option, stringLiteral "on", on]
    (unionAll types).Concise ∧ (unionAll types = .any ↔ .any ∈ types) ∧ (unionAll types).Tidy ∧
      unionAll types = ((flattenAll types).foldl (Gathered.add union) .empty).build ∧
      (union option on).Concise ∧ (union option on = .any ↔ option = .any ∨ on = .any) ∧
      (union option on).Tidy ∧ (without option on).Concise ∧
      (without option on = .any ↔ option = .any ∧ on ≠ .any) ∧ (without option on).Tidy ∧
      (intersect option on).Tidy := by
  have hoption : Constructed (enumOf "option" [("some", some string), ("none", none)]) :=
    .enumOf (by simp [Constructed.string])
  have hon : Constructed (enumOf "option" [("some", some (stringLiteral "on"))]) :=
    .enumOf (by simp [Constructed.stringLiteral])
  exact unions_are_minimal (by simp [hoption, hon, Constructed.stringLiteral]) hoption hon

end TypedFlow.Ty
