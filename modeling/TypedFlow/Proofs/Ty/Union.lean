import TypedFlow.Proofs.Ty.Subtype
import TypedFlow.Ty.Union

/-!
# Unions have the probes of their members

A union is gathered type by type. What has been gathered so far has the probes of the types added
so far: that is the invariant, and adding a type keeps it whatever the type is. Merging payloads
is again a union, so the whole is an induction on the depth to which payloads nest.
-/
namespace TypedFlow.Ty

/-- A proper type whose payloads nest at most to a depth. -/
structure Within (d : ℕ) (t : Ty) : Prop where
  proper : t.Proper
  depth : payloadDepth t ≤ d

section Depth
variable {d : ℕ}

theorem payloadDepthAll_le {types : List Ty} :
    payloadDepthAll types ≤ d ↔ ∀ t ∈ types, payloadDepth t ≤ d := by
  induction types with
  | nil => simp [payloadDepthAll]
  | cons t types ih => simp [payloadDepthAll, ih]

theorem payloadDepthVariants_le {variants : List (String × Option Ty)} :
    payloadDepthVariants variants ≤ d ↔
      ∀ entry ∈ variants, ∀ t, entry.2 = some t → payloadDepth t ≤ d := by
  induction variants with
  | nil => simp [payloadDepthVariants]
  | cons entry variants ih =>
    obtain ⟨name, payload⟩ := entry
    cases payload with
    | none => simp [payloadDepthVariants, ih]
    | some t => simp [payloadDepthVariants, ih]

end Depth

section Flatten
variable {d : ℕ}

theorem flattenAll_eq (types : List Ty) : flattenAll types = types.flatMap flatten := by
  induction types with
  | nil => rfl
  | cons t types ih => simp [flattenAll, ih]

theorem flatten_eq_self {t : Ty} (h : t.Plain) : flatten t = [t] := by
  cases t with
  | oneOf members => exact absurd rfl (h members)
  | _ => rfl

theorem flatten_spec {t : Ty} (h : t.Proper) (hd : payloadDepth t ≤ d) :
    (∀ s ∈ flatten t, s.Within d ∧ s.Plain) ∧ ∀ v, (∃ s ∈ flatten t, Has v s) ↔ Has v t := by
  have hself : ∀ {s : Ty}, s.Proper → payloadDepth s ≤ d → s.Plain →
      (∀ r ∈ flatten s, r.Within d ∧ r.Plain) ∧ ∀ v, (∃ r ∈ flatten s, Has v r) ↔ Has v s := by
    intro s hs hds hplain
    rw [flatten_eq_self hplain]
    simp only [List.mem_singleton, forall_eq, exists_eq_left, implies_true, and_true]
    exact ⟨⟨hs, hds⟩, hplain⟩
  induction h with
  | @oneOf members _ _ _ ih =>
    rw [payloadDepth, payloadDepthAll_le] at hd
    rw [flatten, flattenAll_eq]
    refine ⟨fun s hs => ?_, fun v => ?_⟩
    · obtain ⟨t, ht, hs⟩ := List.mem_flatMap.1 hs
      exact (ih t ht (hd t ht)).1 s hs
    · rw [has_oneOf_iff]
      constructor
      · intro hh
        obtain ⟨s, hs, hv⟩ := hh
        obtain ⟨t, ht, hs⟩ := List.mem_flatMap.1 hs
        exact ⟨t, ht, ((ih t ht (hd t ht)).2 v).1 ⟨s, hs, hv⟩⟩
      · intro hh
        obtain ⟨t, ht, hv⟩ := hh
        obtain ⟨s, hs, hv⟩ := ((ih t ht (hd t ht)).2 v).2 hv
        exact ⟨s, List.mem_flatMap.2 ⟨t, ht, hs⟩, hv⟩
  | any => exact hself .any hd (by intro _ h; cases h)
  | never => exact hself .never hd (by intro _ h; cases h)
  | number => exact hself .number hd (by intro _ h; cases h)
  | string => exact hself .string hd (by intro _ h; cases h)
  | stringLiteral content => exact hself (.stringLiteral content) hd (by intro _ h; cases h)
  | numeric sound nonempty => exact hself (.numeric sound nonempty) hd (by intro _ h; cases h)
  | struct distinct proper inhabited =>
    exact hself (.struct distinct proper inhabited) hd (by intro _ h; cases h)
  | enum nonempty ascending proper inhabited =>
    exact hself (.enum nonempty ascending proper inhabited) hd (by intro _ h; cases h)

end Flatten

namespace Gathered
variable {d : ℕ} {join : Ty → Ty → Ty}

/-- `join` is a union of payload types that nest less deeply than `d`. -/
def Joins (join : Ty → Ty → Ty) (d : ℕ) : Prop :=
  ∀ a b, a.Proper → b.Proper → payloadDepth a < d → payloadDepth b < d →
    (join a b).Proper ∧ payloadDepth (join a b) < d ∧ ∀ v, Has v (join a b) ↔ Has v a ∨ Has v b

section Enums

/-- What may be listed as the payload type of an enum within `d`. -/
def Payload (d : ℕ) (listed : Option Ty) : Prop :=
  ∀ t, listed = some t → t.Proper ∧ t.isNever = false ∧ payloadDepth t < d

theorem within_enum_iff {name : String} {variants : List (String × Option Ty)} :
    Within d (.enum name variants) ↔
      0 < d ∧ variants ≠ [] ∧ Entries.Ascending variants ∧ ∀ entry ∈ variants, Payload d entry.2 := by
  constructor
  · intro hh
    obtain ⟨hproper, hdepth⟩ := hh
    cases hproper with
    | enum nonempty ascending proper inhabited =>
      rw [payloadDepth] at hdepth
      have hle := payloadDepthVariants_le.1 (Nat.le_sub_one_of_lt hdepth)
      refine ⟨by omega, nonempty, ascending, fun entry hentry t ht => ?_⟩
      have hlt := hle entry hentry t ht
      exact ⟨proper entry hentry t ht, inhabited entry hentry t ht, by omega⟩
  · intro hh
    obtain ⟨hpos, nonempty, ascending, hpayload⟩ := hh
    refine ⟨.enum nonempty ascending (fun entry hentry t ht => (hpayload entry hentry t ht).1)
      fun entry hentry t ht => (hpayload entry hentry t ht).2.1, ?_⟩
    have hle : payloadDepthVariants variants ≤ d - 1 := by
      rw [payloadDepthVariants_le]
      intro entry hentry t ht
      have hlt := (hpayload entry hentry t ht).2.2
      omega
    rw [payloadDepth]
    omega

theorem payload_mergePayload (hjoin : Joins join d) {present : Option (Option Ty)}
    {payload : Option Ty} (hpresent : ∀ p, present = some p → Payload d p)
    (hpayload : Payload d payload) : Payload d (mergePayload join present payload) := by
  cases present with
  | none => exact hpayload
  | some present =>
    cases present with
    | none => exact fun t h => by cases h
    | some a =>
      cases payload with
      | none => exact fun t h => by cases h
      | some b =>
        obtain ⟨ha, hne, hda⟩ := hpresent _ rfl a rfl
        obtain ⟨hb, -, hdb⟩ := hpayload b rfl
        obtain ⟨hproper, hdepth, hmem⟩ := hjoin a b ha hb hda hdb
        obtain ⟨v, hv⟩ := ha.exists_has hne
        intro t ht
        cases ht
        exact ⟨hproper, isNever_of_has ((hmem v).2 (.inl hv)), hdepth⟩

theorem payloadHas_mergePayload (hjoin : Joins join d) {present : Option (Option Ty)}
    {payload : Option Ty} (hpresent : ∀ p, present = some p → Payload d p)
    (hpayload : Payload d payload) (carried : Option Probe) :
    PayloadHas carried (mergePayload join present payload) ↔
      (∃ p, present = some p ∧ PayloadHas carried p) ∨ PayloadHas carried payload := by
  cases present with
  | none => simp [mergePayload]
  | some present =>
    cases present with
    | none => simp [mergePayload, payloadHas_none]
    | some a =>
      cases payload with
      | none => simp [mergePayload, payloadHas_none]
      | some b =>
        obtain ⟨ha, -, hda⟩ := hpresent _ rfl a rfl
        obtain ⟨hb, -, hdb⟩ := hpayload b rfl
        obtain ⟨-, -, hmem⟩ := hjoin a b ha hb hda hdb
        simp only [mergePayload, payloadHas_some_iff, hmem, Option.some.injEq, exists_eq_left',
          and_or_left, exists_or]

theorem mergeVariants_eq (variants others : List (String × Option Ty)) :
    mergeVariants join variants others = Entries.insertAll
      (fun entry => mergePayload join (Entries.get? variants entry.1) entry.2) others variants := rfl

theorem get?_mergeVariants (variants others : List (String × Option Ty))
    (hd : (Entries.names others).Nodup) (name : String) :
    Entries.get? (mergeVariants join variants others) name =
      ((Entries.get? others name).map (mergePayload join (Entries.get? variants name))).or
        (Entries.get? variants name) := by
  rw [mergeVariants_eq, Entries.get?_insertAll _ hd]

theorem ascending_mergeVariants {variants others : List (String × Option Ty)}
    (h : Entries.Ascending variants) : Entries.Ascending (mergeVariants join variants others) := by
  rw [mergeVariants_eq]
  exact Entries.ascending_insertAll _ h

theorem mergeVariants_ne_nil {variants others : List (String × Option Ty)}
    (h : variants ≠ [] ∨ others ≠ []) : mergeVariants join variants others ≠ [] := by
  intro hnil
  have hsome : ∀ name, (Entries.get? (mergeVariants join variants others) name).isSome = true ↔
      name ∈ Entries.names others ∨ (Entries.get? variants name).isSome = true :=
    fun name => mergeVariants_eq variants others ▸ Entries.isSome_get?_insertAll _ name
  rw [hnil] at hsome
  simp only [Entries.get?_nil, Option.isSome_none, Bool.false_eq_true, false_iff, not_or] at hsome
  rcases h with h | h
  · obtain ⟨e, he⟩ := List.exists_mem_of_ne_nil variants h
    exact (hsome e.1).2 (Entries.get?_isSome_iff.2 (List.mem_map_of_mem he))
  · obtain ⟨e, he⟩ := List.exists_mem_of_ne_nil others h
    exact (hsome e.1).1 (List.mem_map_of_mem he)

section Merged
variable {name : String} {variants others : List (String × Option Ty)}

theorem within_mergeVariants (hjoin : Joins join d) (hv : Within d (.enum name variants))
    (ho : Within d (.enum name others)) :
    Within d (.enum name (mergeVariants join variants others)) := by
  obtain ⟨hpos, hne, hascending, hpayload⟩ := within_enum_iff.1 hv
  obtain ⟨-, -, hascending', hpayload'⟩ := within_enum_iff.1 ho
  have hmerged : Entries.Ascending (mergeVariants join variants others) :=
    ascending_mergeVariants hascending
  refine within_enum_iff.2 ⟨hpos, mergeVariants_ne_nil (.inl hne), hmerged, fun entry hentry => ?_⟩
  have hentry := Entries.get?_of_mem hmerged.nodup hentry
  rw [get?_mergeVariants variants others hascending'.nodup] at hentry
  cases hcase : Entries.get? others entry.1 with
  | none =>
    rw [hcase] at hentry
    exact hpayload _ (Entries.mem_of_get? hentry)
  | some payload =>
    rw [hcase] at hentry
    have hentry := Option.some.inj hentry
    rw [← hentry]
    exact payload_mergePayload hjoin (fun p hp => hpayload _ (Entries.mem_of_get? hp))
      (hpayload' _ (Entries.mem_of_get? hcase))

theorem has_mergeVariants_iff (hjoin : Joins join d) (hv : Within d (.enum name variants))
    (ho : Within d (.enum name others)) (v : Probe) :
    Has v (.enum name (mergeVariants join variants others)) ↔
      Has v (.enum name variants) ∨ Has v (.enum name others) := by
  obtain ⟨-, -, -, hpayload⟩ := within_enum_iff.1 hv
  obtain ⟨-, -, hascending', hpayload'⟩ := within_enum_iff.1 ho
  have hlisted : ∀ variant carried,
      (∃ listed, Entries.get? (mergeVariants join variants others) variant = some listed ∧
        PayloadHas carried listed) ↔
      (∃ listed, Entries.get? variants variant = some listed ∧ PayloadHas carried listed) ∨
        ∃ listed, Entries.get? others variant = some listed ∧ PayloadHas carried listed := by
    intro variant carried
    rw [get?_mergeVariants variants others hascending'.nodup]
    cases hcase : Entries.get? others variant with
    | none => simp
    | some payload =>
      have hmem := payloadHas_mergePayload hjoin
        (fun p (hp : Entries.get? variants variant = some p) =>
          hpayload _ (Entries.mem_of_get? hp)) (hpayload' _ (Entries.mem_of_get? hcase)) carried
      simp only [Option.map_some, Option.some_or, Option.some.injEq, exists_eq_left', hmem]
  simp only [has_enum_iff, hlisted]
  grind

end Merged

theorem addEnum_spec (hjoin : Joins join d) {name : String} {variants : List (String × Option Ty)}
    {enums : List (String × List (String × Option Ty))} (hv : Within d (.enum name variants))
    (h : ∀ e ∈ enums, Within d (.enum e.1 e.2)) :
    (∀ e ∈ addEnum join name variants enums, Within d (.enum e.1 e.2)) ∧
      ∀ v, (∃ e ∈ addEnum join name variants enums, Has v (.enum e.1 e.2)) ↔
        (∃ e ∈ enums, Has v (.enum e.1 e.2)) ∨ Has v (.enum name variants) := by
  induction enums with
  | nil => simpa [addEnum] using hv
  | cons entry enums ih =>
    obtain ⟨other, present⟩ := entry
    have hfirst : Within d (.enum other present) := h _ List.mem_cons_self
    have hrest := fun e he => h e (List.mem_cons_of_mem _ he)
    by_cases hname : other = name
    · subst hname
      have hwithin := within_mergeVariants hjoin hfirst hv
      have hmem := has_mergeVariants_iff hjoin hfirst hv
      rw [addEnum, if_pos (beq_self_eq_true other)]
      simp only [List.mem_cons, forall_eq_or_imp, exists_eq_or_imp, hmem]
      exact ⟨⟨hwithin, hrest⟩, fun v => or_right_comm⟩
    · obtain ⟨hwithin, hmem⟩ := ih hrest
      rw [addEnum, if_neg (by simpa using hname)]
      simp only [List.mem_cons, forall_eq_or_imp, exists_eq_or_imp, hmem]
      exact ⟨⟨hfirst, hwithin⟩, fun v => or_assoc.symm⟩

end Enums

theorem addStruct_spec {name : String} {fields : List (String × Ty)}
    {structs : List (String × List (String × Ty))} (hs : (Ty.struct name fields).Proper)
    (h : ∀ s ∈ structs, (Ty.struct s.1 s.2).Proper) :
    (∀ s ∈ addStruct name fields structs, (Ty.struct s.1 s.2).Proper) ∧
      ∀ v, (∃ s ∈ addStruct name fields structs, Has v (.struct s.1 s.2)) ↔
        (∃ s ∈ structs, Has v (.struct s.1 s.2)) ∨ Has v (.struct name fields) := by
  unfold addStruct
  dsimp only
  by_cases hcovered : (structs.any fun s =>
      (Ty.struct name fields).isSubtype (.struct s.1 s.2)) = true
  · rw [if_pos hcovered]
    obtain ⟨s, hs', hsub⟩ := List.any_eq_true.1 hcovered
    refine ⟨h, fun v => ⟨.inl, ?_⟩⟩
    intro hh
    rcases hh with hv | hv
    · exact hv
    · exact ⟨s, hs', has_of_isSubtype hs (h s hs') hsub hv⟩
  · rw [if_neg hcovered]
    constructor
    · intro s hs'
      rcases List.mem_append.1 hs' with hs' | hs'
      · exact h s (List.mem_filter.1 hs').1
      · rw [List.mem_singleton.1 hs']
        exact hs
    · intro v
      constructor
      · intro hh
        obtain ⟨s, hs', hv⟩ := hh
        rcases List.mem_append.1 hs' with hs' | hs'
        · exact .inl ⟨s, (List.mem_filter.1 hs').1, hv⟩
        · rw [List.mem_singleton.1 hs'] at hv
          exact .inr hv
      · intro hh
        rcases hh with ⟨s, hs', hv⟩ | hv
        · by_cases hsub : (Ty.struct s.1 s.2).isSubtype (.struct name fields) = true
          · refine ⟨(name, fields), by simp, has_of_isSubtype (h s hs') hs hsub hv⟩
          · refine ⟨s, List.mem_append_left _ (List.mem_filter.2 ⟨hs', ?_⟩), hv⟩
            simpa using hsub
        · exact ⟨(name, fields), by simp, hv⟩

/-- The probes of what has been gathered. -/
def Has (v : Probe) (g : Gathered) : Prop :=
  g.any = true ∨ (g.number = true ∧ Ty.Has v .number) ∨
    (∃ set, g.numeric = some set ∧ Ty.Has v (.numeric set)) ∨
    (g.string = true ∧ Ty.Has v .string) ∨
    (∃ content ∈ g.literals, Ty.Has v (.stringLiteral content)) ∨
    (∃ e ∈ g.enums, Ty.Has v (.enum e.1 e.2)) ∨ ∃ s ∈ g.structs, Ty.Has v (.struct s.1 s.2)

structure Good (d : ℕ) (g : Gathered) : Prop where
  numeric : ∀ set, g.numeric = some set → set.Sound ∧ set.isEmpty = false
  enums : ∀ e ∈ g.enums, Within d (.enum e.1 e.2)
  structs : ∀ s ∈ g.structs, (Ty.struct s.1 s.2).Proper

theorem good_empty (d : ℕ) : Good d .empty where
  numeric set h := by cases h
  enums e h := by cases h
  structs s h := by cases h

theorem not_has_empty {v : Probe} : ¬ Has v .empty := by
  simp [Has, empty]

theorem numeric_spec {present : Option NumericSet} {set : NumericSet}
    (hp : ∀ s, present = some s → s.Sound ∧ s.isEmpty = false)
    (hs : set.Sound) (hne : set.isEmpty = false) :
    (present.elim set (·.union set)).Sound ∧ (present.elim set (·.union set)).isEmpty = false ∧
      ∀ v, Ty.Has v (.numeric (present.elim set (·.union set))) ↔
        (∃ s, present = some s ∧ Ty.Has v (.numeric s)) ∨ Ty.Has v (.numeric set) := by
  cases present with
  | none => simpa using ⟨hs, hne⟩
  | some s =>
    have hsound := (hp s rfl).1
    refine ⟨NumericSet.sound_union hsound hs, ?_, fun v => ?_⟩
    · obtain ⟨x, hx⟩ := NumericSet.exists_mem hs hne
      have hx : (s.union set).Mem x := (NumericSet.mem_union hsound hs).2 (.inr hx)
      rw [← Bool.not_eq_true]
      exact fun hempty => NumericSet.not_mem_of_isEmpty hempty hx
    · simp only [Option.elim_some, has_numeric_iff, NumericSet.mem_union hsound hs,
        Option.some.injEq, exists_eq_left', and_or_left, exists_or]

theorem or_here {P P' R M : Prop} (h : P' ↔ P ∨ M) : P' ∨ R ↔ (P ∨ R) ∨ M := by
  rw [h, or_right_comm]

theorem or_later {P R R' M : Prop} (h : R' ↔ R ∨ M) : P ∨ R' ↔ (P ∨ R) ∨ M := by
  rw [h, or_assoc]

/-- The step of the invariant: adding a type adds its probes and no others. Each kind of type is
added to one of the things gathered and leaves the others as they are. -/
theorem add_spec (hjoin : Joins join d) {g : Gathered} (hg : g.Good d) {t : Ty} (ht : t.Within d)
    (hplain : t.Plain) :
    (add join g t).Good d ∧ ∀ v, Has v (add join g t) ↔ Has v g ∨ Ty.Has v t := by
  cases t with
  | any =>
    refine ⟨⟨hg.numeric, hg.enums, hg.structs⟩, fun v => or_here ?_⟩
    simp [add, has_any]
  | never =>
    refine ⟨hg, fun v => ?_⟩
    simp [add, not_has_never]
  | number =>
    refine ⟨⟨hg.numeric, hg.enums, hg.structs⟩, fun v => or_later (or_here ?_)⟩
    simp only [add, true_and]
    exact ⟨.inr, fun h => h.elim And.right id⟩
  | string =>
    refine ⟨⟨hg.numeric, hg.enums, hg.structs⟩, fun v =>
      or_later (or_later (or_later (or_here ?_)))⟩
    simp only [add, true_and]
    exact ⟨.inr, fun h => h.elim And.right id⟩
  | numeric set =>
    cases ht.proper with
    | numeric hs hne =>
      obtain ⟨hsound, hne', hmem⟩ := numeric_spec hg.numeric hs hne
      refine ⟨⟨fun s h => ?_, hg.enums, hg.structs⟩, fun v => or_later (or_later (or_here ?_))⟩
      · obtain rfl := Option.some.inj h
        exact ⟨hsound, hne'⟩
      · simp only [add, Option.some.injEq, exists_eq_left', hmem]
  | stringLiteral content =>
    simp only [add]
    by_cases hcontains : g.literals.contains content = true
    · rw [if_pos hcontains]
      refine ⟨hg, fun v => ⟨.inl, ?_⟩⟩
      intro hh
      rcases hh with hv | hv
      · exact hv
      · exact .inr (.inr (.inr (.inr (.inl ⟨content, by simpa using hcontains, hv⟩))))
    · rw [if_neg hcontains]
      refine ⟨⟨hg.numeric, hg.enums, hg.structs⟩, fun v =>
        or_later (or_later (or_later (or_later (or_here ?_))))⟩
      simp only [List.mem_append, List.mem_singleton, or_and_right, exists_or, exists_eq_left]
  | struct name fields =>
    obtain ⟨hproper, hmem⟩ := addStruct_spec ht.proper hg.structs
    exact ⟨⟨hg.numeric, hg.enums, hproper⟩, fun v =>
      or_later (or_later (or_later (or_later (or_later (or_later (hmem v))))))⟩
  | enum name variants =>
    obtain ⟨hwithin, hmem⟩ := addEnum_spec hjoin ht hg.enums
    exact ⟨⟨hg.numeric, hwithin, hg.structs⟩, fun v =>
      or_later (or_later (or_later (or_later (or_later (or_here (hmem v))))))⟩
  | oneOf members => exact absurd rfl (hplain members)

theorem foldl_add_spec (hjoin : Joins join d) {types : List Ty} {g : Gathered} (hg : g.Good d)
    (h : ∀ t ∈ types, t.Within d ∧ t.Plain) : (types.foldl (add join) g).Good d ∧
      ∀ v, Has v (types.foldl (add join) g) ↔ Has v g ∨ ∃ t ∈ types, Ty.Has v t := by
  induction types generalizing g with
  | nil => simpa using hg
  | cons t types ih =>
    obtain ⟨ht, hplain⟩ := h t List.mem_cons_self
    obtain ⟨hgood, hmem⟩ := add_spec hjoin hg ht hplain
    obtain ⟨hgood', hmem'⟩ := ih hgood fun s hs => h s (List.mem_cons_of_mem t hs)
    refine ⟨hgood', fun v => ?_⟩
    rw [List.foldl_cons, hmem', hmem]
    simp only [List.mem_cons, exists_eq_or_imp, or_assoc]

section Build
variable {g : Gathered}

/-- What may stand in the list of members. -/
structure Member (d : ℕ) (t : Ty) : Prop where
  within : t.Within d
  inhabited : t.isNever = false

/-- Members that between them have the probes for which `P` holds. -/
structure Makes (d : ℕ) (types : List Ty) (P : Probe → Prop) : Prop where
  member : ∀ t ∈ types, Member d t
  mem : ∀ v, (∃ t ∈ types, Ty.Has v t) ↔ P v

theorem Makes.append {xs ys : List Ty} {P Q : Probe → Prop} (hx : Makes d xs P)
    (hy : Makes d ys Q) : Makes d (xs ++ ys) (fun v => P v ∨ Q v) where
  member t ht := by
    rcases List.mem_append.1 ht with ht | ht
    · exact hx.member t ht
    · exact hy.member t ht
  mem v := by
    rw [← hx.mem, ← hy.mem]
    simp only [List.mem_append, or_and_right, exists_or]

theorem Makes.map {α : Type} {xs : List α} {f : α → Ty} (h : ∀ x ∈ xs, Member d (f x)) :
    Makes d (xs.map f) (fun v => ∃ x ∈ xs, Ty.Has v (f x)) where
  member t ht := by
    obtain ⟨x, hx, rfl⟩ := List.mem_map.1 ht
    exact h x hx
  mem v := by
    simp only [List.mem_map, exists_exists_and_eq_and]

theorem makes_numericMembers (hg : g.Good d) : Makes d g.numericMembers (fun v =>
    (g.number = true ∧ Ty.Has v .number) ∨
      ∃ set, g.numeric = some set ∧ Ty.Has v (.numeric set)) := by
  simp only [numericMembers]
  by_cases hnumber : g.number = true
  · rw [if_pos hnumber]
    refine ⟨fun t ht => ?_, fun v => ?_⟩
    · rw [List.mem_singleton.1 ht]
      exact ⟨⟨.number, Nat.zero_le d⟩, rfl⟩
    · simp only [List.mem_singleton, exists_eq_left, hnumber, true_and]
      refine ⟨.inl, ?_⟩
      intro hh
      rcases hh with hv | ⟨set, -, hv⟩
      · exact hv
      · exact has_number_of_numeric hv
  · rw [if_neg hnumber]
    cases hset : g.numeric with
    | none => exact ⟨by simp, by simp [hnumber]⟩
    | some set =>
      obtain ⟨hs, hne⟩ := hg.numeric set hset
      obtain ⟨hproper, hmem⟩ := ofNumericSet_spec hs
      have hof : ofNumericSet set = .number ∨ ofNumericSet set = .numeric set := by
        simp only [ofNumericSet]
        rw [hne, if_neg Bool.false_ne_true]
        exact ite_eq_or_eq _ _ _
      simp only [Option.map_some, hnumber, Option.some.injEq, exists_eq_left', ← hmem]
      rcases hof with hof | hof
      · rw [hof] at hproper ⊢
        exact ⟨by simpa using ⟨⟨hproper, Nat.zero_le d⟩, rfl⟩, by simp⟩
      · rw [hof] at hproper ⊢
        exact ⟨by simpa using ⟨⟨hproper, Nat.zero_le d⟩, rfl⟩, by simp⟩

theorem makes_texts (g : Gathered) : Makes d
    (if g.string then [.string] else g.literals.map .stringLiteral) (fun v =>
      (g.string = true ∧ Ty.Has v .string) ∨
        ∃ content ∈ g.literals, Ty.Has v (.stringLiteral content)) := by
  by_cases hstring : g.string = true
  · rw [if_pos hstring]
    refine ⟨fun t ht => ?_, fun v => ?_⟩
    · rw [List.mem_singleton.1 ht]
      exact ⟨⟨.string, Nat.zero_le d⟩, rfl⟩
    · simp only [List.mem_singleton, exists_eq_left, hstring, true_and]
      refine ⟨.inl, ?_⟩
      intro hh
      rcases hh with hv | ⟨content, -, hv⟩
      · exact hv
      · exact has_string_of_literal hv
  · rw [if_neg hstring]
    have hmap : Makes d (g.literals.map .stringLiteral)
        (fun v => ∃ content ∈ g.literals, Ty.Has v (.stringLiteral content)) :=
      Makes.map fun content _ => ⟨⟨.stringLiteral content, Nat.zero_le d⟩, rfl⟩
    refine ⟨hmap.member, fun v => ?_⟩
    simp only [hmap.mem, hstring, Bool.false_eq_true, false_and, false_or]

theorem makes_enums (hg : g.Good d) :
    Makes d ((g.enums.filter (!·.2.isEmpty)).map fun e => .enum e.1 e.2)
      (fun v => ∃ e ∈ g.enums, Ty.Has v (.enum e.1 e.2)) := by
  have hall : g.enums.filter (!·.2.isEmpty) = g.enums := by
    rw [List.filter_eq_self]
    intro e he
    obtain ⟨-, hne, -⟩ := within_enum_iff.1 (hg.enums e he)
    simpa using hne
  rw [hall]
  exact Makes.map (f := fun e => Ty.enum e.1 e.2) fun e he => ⟨hg.enums e he, rfl⟩

theorem makes_memberList (hg : g.Good d) (hany : g.any = false) :
    Makes d g.memberList (fun v => Has v g) := by
  have hstructs : Makes d (g.structs.map fun s => .struct s.1 s.2)
      (fun v => ∃ s ∈ g.structs, Ty.Has v (.struct s.1 s.2)) :=
    Makes.map (f := fun s => Ty.struct s.1 s.2) fun s hs =>
      ⟨⟨hg.structs s hs, Nat.zero_le d⟩, rfl⟩
  have hlist := (((makes_numericMembers hg).append (makes_texts g)).append (makes_enums hg)).append
    hstructs
  refine ⟨hlist.member, fun v => (hlist.mem v).trans ?_⟩
  simp only [Has, hany, Bool.false_eq_true, false_or, or_assoc]

theorem build_spec (hg : g.Good d) : Within d g.build ∧ ∀ v, Ty.Has v g.build ↔ Has v g := by
  simp only [build]
  by_cases hany : g.any = true
  · rw [if_pos hany]
    refine ⟨⟨.any, Nat.zero_le d⟩, fun v => ?_⟩
    simp [Has, hany, has_any]
  · rw [if_neg hany]
    obtain ⟨hmember, hmem⟩ := makes_memberList hg (by simpa using hany)
    split
    · rename_i hnil
      refine ⟨⟨.never, Nat.zero_le d⟩, fun v => ?_⟩
      rw [← hmem, hnil]
      simp [not_has_never]
    · rename_i only honly
      refine ⟨(hmember only (by simp [honly])).within, fun v => ?_⟩
      rw [← hmem, honly]
      simp
    · rename_i hnil _
      refine ⟨⟨.oneOf (by simpa using hnil) (fun t ht => (hmember t ht).within.proper)
        fun t ht => (hmember t ht).inhabited, ?_⟩, fun v => ?_⟩
      · rw [payloadDepth, payloadDepthAll_le]
        exact fun t ht => (hmember t ht).within.depth
      · rw [← hmem, has_oneOf_iff]

end Build

end Gathered

/-- The union at a level, for types whose payloads nest less deeply than the level. -/
theorem unionAt_spec {level d : ℕ} (hd : d < level) {types : List Ty}
    (h : ∀ t ∈ types, t.Within d) :
    Within d (unionAt level types) ∧ ∀ v, Has v (unionAt level types) ↔ ∃ t ∈ types, Has v t := by
  induction level generalizing d types with
  | zero => exact absurd hd (Nat.not_lt_zero d)
  | succ level ih =>
    -- Payloads nest less deeply than the enums that carry them, so one level less joins them.
    have hjoin : Gathered.Joins (fun a b => unionAt level [a, b]) d := by
      intro a b ha hb hda hdb
      have hpair : ∀ t ∈ [a, b], t.Within (d - 1) := by
        intro t ht
        simp only [List.mem_cons, List.not_mem_nil, or_false] at ht
        rcases ht with rfl | rfl
        · exact ⟨ha, by omega⟩
        · exact ⟨hb, by omega⟩
      obtain ⟨hwithin, hmem⟩ := ih (by omega) hpair
      refine ⟨hwithin.proper, lt_of_le_of_lt hwithin.depth (by omega), fun v => ?_⟩
      rw [hmem]
      simp
    have hflat : ∀ t ∈ flattenAll types, t.Within d ∧ t.Plain := by
      intro t ht
      rw [flattenAll_eq] at ht
      obtain ⟨s, hs, ht⟩ := List.mem_flatMap.1 ht
      exact (flatten_spec (h s hs).proper (h s hs).depth).1 t ht
    obtain ⟨hgood, hmem⟩ := Gathered.foldl_add_spec hjoin (Gathered.good_empty d) hflat
    obtain ⟨hwithin, hbuild⟩ := Gathered.build_spec hgood
    rw [unionAt]
    refine ⟨hwithin, fun v => ?_⟩
    rw [hbuild, hmem, flattenAll_eq]
    simp only [Gathered.not_has_empty, false_or]
    constructor
    · intro hh
      obtain ⟨s, hs, hv⟩ := hh
      obtain ⟨t, ht, hs⟩ := List.mem_flatMap.1 hs
      exact ⟨t, ht, ((flatten_spec (h t ht).proper (h t ht).depth).2 v).1 ⟨s, hs, hv⟩⟩
    · intro hh
      obtain ⟨t, ht, hv⟩ := hh
      obtain ⟨s, hs, hv⟩ := ((flatten_spec (h t ht).proper (h t ht).depth).2 v).2 hv
      exact ⟨s, List.mem_flatMap.2 ⟨t, ht, hs⟩, hv⟩

theorem unionAll_spec {types : List Ty} (h : ∀ t ∈ types, t.Proper) :
    (unionAll types).Proper ∧ ∀ v, Has v (unionAll types) ↔ ∃ t ∈ types, Has v t := by
  have hwithin : ∀ t ∈ types, t.Within (payloadDepthAll types) :=
    fun t ht => ⟨h t ht, payloadDepthAll_le.1 le_rfl t ht⟩
  obtain ⟨hunion, hmem⟩ := unionAt_spec (Nat.lt_succ_self _) hwithin
  exact ⟨hunion.proper, hmem⟩

theorem has_union {a b : Ty} (ha : a.Proper) (hb : b.Proper) {v : Probe} :
    Has v (union a b) ↔ Has v a ∨ Has v b := by
  have hpair : ∀ t ∈ [a, b], t.Proper := by simp [ha, hb]
  rw [union, (unionAll_spec hpair).2]
  simp

end TypedFlow.Ty
