import TypedFlow.Proofs.Ty.Equality
import TypedFlow.Proofs.Ty.Gathering

/-!
# Differences

An enum is the union of its single variants, so that the test for a whole enum agrees with those
for its variants. What is left of a member is then not covered, nor is any single variant of it,
and what was removed is. The remainders of minimal members are minimal again, so that their union
has them one by one, and removing the same type again changes nothing.
-/
namespace TypedFlow.Ty

section Members
variable {s t : Ty} {v : Probe}

theorem Settled.of_mem_members (h : t.Settled) (hs : s ∈ t.members) : s.Settled := by
  cases t with
  | oneOf members => exact h.member hs
  | _ => exact List.mem_singleton.1 hs ▸ h

theorem has_iff_members : Has v t ↔ ∃ s ∈ t.members, Has v s := by
  cases t with
  | oneOf members => exact has_oneOf_iff
  | _ => simp [members]

/-- A type other than `any` and `never` has minimal members. -/
theorem Settled.minimal_members (h : t.Settled) (hany : t ≠ .any) (hnever : t ≠ .never) :
    Minimal t.members := by
  cases t with
  | any => exact absurd rfl hany
  | never => exact absurd rfl hnever
  | oneOf members => exact h.tidy.minimal
  | numeric set =>
    refine minimal_singleton (Nat.succ_pos 3) ?_
    cases h.proper with
    | numeric _ nonempty =>
      cases h.reduced with
      | numeric _ bounded => exact ⟨nonempty, bounded⟩
  | enum name variants =>
    refine minimal_singleton (by simp [rank]) ?_
    cases h.proper with
    | enum nonempty _ _ _ => exact nonempty
  | number | string | stringLiteral | struct => exact minimal_singleton (by simp [rank]) trivial

end Members

section Variants
variable {name : String} {variants some' : List (String × Option Ty)} {b : Ty} {v : Probe}

theorem has_single_iff {e : String × Option Ty} : Has v (.enum name [e]) ↔
    ∃ payload, v = .variant name e.1 payload ∧ PayloadHas payload e.2 := by
  rw [has_enum_iff]
  constructor
  · rintro ⟨variant, payload, rfl, listed, hget, hpayload⟩
    cases List.mem_singleton.1 (Entries.mem_of_get? hget)
    exact ⟨payload, rfl, hpayload⟩
  · rintro ⟨payload, rfl, hpayload⟩
    exact ⟨e.1, payload, rfl, e.2, by simp [Entries.get?_cons], hpayload⟩

/-- An enum has the probes of its single variants. -/
theorem has_enum_iff_single (h : Entries.Ascending variants) :
    Has v (.enum name variants) ↔ ∃ e ∈ variants, Has v (.enum name [e]) := by
  simp only [has_single_iff]
  rw [has_enum_iff]
  constructor
  · rintro ⟨variant, payload, rfl, listed, hget, hpayload⟩
    exact ⟨_, Entries.mem_of_get? hget, payload, rfl, hpayload⟩
  · rintro ⟨e, he, payload, rfl, hpayload⟩
    exact ⟨e.1, payload, rfl, e.2, Entries.get?_of_mem h.nodup he, hpayload⟩

theorem Settled.of_sublist (h : (Ty.enum name variants).Settled) (hs : some'.Sublist variants)
    (hne : some' ≠ []) : (Ty.enum name some').Settled where
  proper := by
    cases h.proper with
    | enum _ ascending proper inhabited =>
      exact .enum hne (ascending.sublist (hs.map _)) (fun e he => proper e (hs.subset he))
        fun e he => inhabited e (hs.subset he)
  reduced := by
    cases h.reduced with
    | enum reduced => exact .enum fun e he => reduced e (hs.subset he)
  tidy := everywhere_enum_iff.2
    ⟨trivial, fun e he => (everywhere_enum_iff.1 h.tidy).2 e (hs.subset he)⟩

theorem Settled.enum_isSubtype_iff (h : (Ty.enum name variants).Settled) (hb : b.Settled) :
    isSubtype (.enum name variants) b = true ↔
      ∀ e ∈ variants, isSubtype (.enum name [e]) b = true := by
  have hsingle : ∀ e ∈ variants, (Ty.enum name [e]).Settled := fun e he =>
    h.of_sublist (List.singleton_sublist.2 he) (List.cons_ne_nil _ _)
  rw [isSubtype_iff h.toNormal hb.toNormal]
  simp only [has_enum_iff_single h.ascending_variants]
  constructor
  · intro hall e he
    exact isSubtype_of_has (hsingle e he).toNormal hb.toNormal fun v hv => hall v ⟨e, he, hv⟩
  · rintro hall v ⟨e, he, hv⟩
    exact has_of_isSubtype (hsingle e he).proper hb.proper (hall e he) hv

end Variants

section Remainder
variable {b s t : Ty} {name : String} {variants : List (String × Option Ty)} {v : Probe}

/-- The variants of an enum that are not covered one by one. -/
def uncovered (b : Ty) (name : String) (variants : List (String × Option Ty)) :
    List (String × Option Ty) :=
  variants.filter fun e => !isSubtype (.enum name [e]) b

theorem remainder_cases (h : remainder? b s = some t) : isSubtype s b = false ∧
    (t = s ∧ (∀ name variants, s ≠ .enum name variants) ∨
      ∃ name variants, s = .enum name variants ∧ t = .enum name (uncovered b name variants)) := by
  unfold remainder? at h
  split at h
  · cases h
  · rename_i hnot
    refine ⟨by simpa using hnot, ?_⟩
    split at h
    · rename_i name variants
      exact .inr ⟨name, variants, rfl, (Option.some.inj h).symm⟩
    · rename_i hplain
      exact .inl ⟨(Option.some.inj h).symm, hplain⟩

theorem mem_uncovered {e : String × Option Ty} :
    e ∈ uncovered b name variants ↔ e ∈ variants ∧ isSubtype (.enum name [e]) b = false := by
  rw [uncovered, List.mem_filter, Bool.not_eq_true']

theorem uncovered_ne_nil (h : (Ty.enum name variants).Settled) (hb : b.Settled)
    (hnot : isSubtype (.enum name variants) b = false) : uncovered b name variants ≠ [] := by
  intro hnil
  have hall : isSubtype (.enum name variants) b = true := by
    refine (h.enum_isSubtype_iff hb).2 fun e he => ?_
    by_contra hne
    have hmem := mem_uncovered.2 ⟨he, by simpa using hne⟩
    rw [hnil] at hmem
    cases hmem
  rw [hall] at hnot
  cases hnot

theorem uncovered_uncovered : uncovered b name (uncovered b name variants) =
    uncovered b name variants := by
  simp only [uncovered, List.filter_filter, Bool.and_self]

theorem remainder_eq_none_iff : remainder? b s = none ↔ isSubtype s b = true := by
  unfold remainder?
  split
  · simp_all
  · split
    · simp_all
    · simp_all

section Settled
variable (hs : s.Settled) (hb : b.Settled) (h : remainder? b s = some t)
include hs hb h

theorem settled_remainder : t.Settled := by
  obtain ⟨hnot, ⟨rfl, -⟩ | ⟨name, variants, rfl, rfl⟩⟩ := remainder_cases h
  · exact hs
  · exact hs.of_sublist List.filter_sublist (uncovered_ne_nil hs hb hnot)

theorem has_of_remainder (hv : Has v t) : Has v s := by
  have ht := settled_remainder hs hb h
  obtain ⟨-, ⟨rfl, -⟩ | ⟨name, variants, rfl, rfl⟩⟩ := remainder_cases h
  · exact hv
  · obtain ⟨e, he, hv⟩ := (has_enum_iff_single ht.ascending_variants).1 hv
    exact (has_enum_iff_single hs.ascending_variants).2 ⟨e, (mem_uncovered.1 he).1, hv⟩

theorem has_remainder_or (hv : Has v s) : Has v t ∨ Has v b := by
  have ht := settled_remainder hs hb h
  obtain ⟨-, ⟨rfl, -⟩ | ⟨name, variants, rfl, rfl⟩⟩ := remainder_cases h
  · exact .inl hv
  · obtain ⟨e, he, hv⟩ := (has_enum_iff_single hs.ascending_variants).1 hv
    cases hsub : isSubtype (.enum name [e]) b with
    | true =>
      have hsingle := hs.of_sublist (List.singleton_sublist.2 he) (List.cons_ne_nil _ _)
      exact .inr (has_of_isSubtype hsingle.proper hb.proper hsub hv)
    | false =>
      exact .inl ((has_enum_iff_single ht.ascending_variants).2
        ⟨e, mem_uncovered.2 ⟨he, hsub⟩, hv⟩)

/-- What is left is not covered. -/
theorem remainder_not_isSubtype : isSubtype t b = false := by
  have ht := settled_remainder hs hb h
  obtain ⟨hnot, ⟨rfl, -⟩ | ⟨name, variants, rfl, rfl⟩⟩ := remainder_cases h
  · exact hnot
  · obtain ⟨e, he⟩ := List.exists_mem_of_ne_nil _ (uncovered_ne_nil hs hb hnot)
    rw [← Bool.not_eq_true, ht.enum_isSubtype_iff hb]
    intro hall
    have hsub := hall e he
    rw [(mem_uncovered.1 he).2] at hsub
    cases hsub

/-- Nothing more is removed from what is left. -/
theorem remainder_remainder : remainder? b t = some t := by
  have hnot := remainder_not_isSubtype hs hb h
  obtain ⟨-, ⟨rfl, -⟩ | ⟨name, variants, rfl, rfl⟩⟩ := remainder_cases h
  · exact h
  · rw [remainder?, if_neg (by simpa using hnot)]
    exact congrArg (fun rest => some (Ty.enum name rest)) uncovered_uncovered

end Settled

/-- A remainder stays of its kind and in its place. -/
theorem remainder_rank (h : remainder? b s = some t) : t.rank = s.rank ∧ t.kind? = s.kind? := by
  obtain ⟨-, ⟨rfl, -⟩ | ⟨name, variants, rfl, rfl⟩⟩ := remainder_cases h
  · exact ⟨rfl, rfl⟩
  · exact ⟨rfl, rfl⟩

theorem rank_ne_of_not_enum (h : ∀ name variants, s ≠ .enum name variants) : s.rank ≠ 2 := by
  cases s with
  | enum name variants => exact absurd rfl (h name variants)
  | _ => simp [rank]

theorem incomparable_remainders {s' t' : Ty} (hs : s.rank < 4) (hs' : s'.rank < 4)
    (h : Incomparable s s') (hapart : Apart s s') (ht : remainder? b s = some t)
    (ht' : remainder? b s' = some t') : Incomparable t t' := by
  have hsingle : t.Single := single_of_rank_lt ((remainder_rank ht).1 ▸ hs)
  have hsingle' : t'.Single := single_of_rank_lt ((remainder_rank ht').1 ▸ hs')
  obtain ⟨-, ⟨rfl, hplain⟩ | ⟨name, variants, rfl, rfl⟩⟩ := remainder_cases ht
  · obtain ⟨-, ⟨rfl, -⟩ | ⟨name', listed, rfl, rfl⟩⟩ := remainder_cases ht'
    · exact h
    · exact incomparable_of_rank_ne hsingle hsingle' (rank_ne_of_not_enum hplain)
  · obtain ⟨-, ⟨rfl, hplain⟩ | ⟨name', listed, rfl, rfl⟩⟩ := remainder_cases ht'
    · exact incomparable_of_rank_ne hsingle hsingle' (rank_ne_of_not_enum hplain).symm
    · exact incomparable_enum (by simpa [Apart, kind?] using hapart)

theorem minimal_remainders {members : List Ty} (h : Minimal members)
    (hs : ∀ s ∈ members, s.Settled) (hb : b.Settled) :
    Minimal (members.filterMap (remainder? b)) := by
  refine minimal_of_irredundant ?_ ?_ ?_ ?_ ?_
  · intro t ht
    obtain ⟨s, hmem, ht⟩ := List.mem_filterMap.1 ht
    exact (remainder_rank ht).1 ▸ h.rank_lt hmem
  · intro t ht
    obtain ⟨s, hmem, ht⟩ := List.mem_filterMap.1 ht
    obtain ⟨hnot, ⟨rfl, -⟩ | ⟨name, variants, rfl, rfl⟩⟩ := remainder_cases ht
    · exact h.filled _ hmem
    · exact uncovered_ne_nil (hs _ hmem) hb hnot
  · refine List.pairwise_filterMap.2 ((h.irredundant.and h.apart).imp_of_mem ?_)
    intro s s' hmem hmem' hpair t ht t' ht'
    exact incomparable_remainders (h.rank_lt hmem) (h.rank_lt hmem') hpair.1 hpair.2 ht ht'
  · refine h.apart.filterMap _ fun s s' hapart t ht t' ht' => ?_
    rw [Apart, (remainder_rank ht).2, (remainder_rank ht').2]
    exact hapart
  · refine h.ordered.filterMap _ fun s s' hle t ht t' ht' => ?_
    rw [(remainder_rank ht).1, (remainder_rank ht').1]
    exact hle

end Remainder

section Without
variable {a b : Ty} (ha : a.Settled) (hb : b.Settled)

include ha hb

theorem settled_without : (without a b).Settled where
  toNormal := normal_unionAll fun t ht => by
    obtain ⟨s, hs, ht⟩ := List.mem_filterMap.1 ht
    exact (settled_remainder (ha.of_mem_members hs) hb ht).toNormal
  tidy := tidy_without ha.tidy

theorem has_without {v : Probe} :
    Has v (without a b) ↔ ∃ s ∈ a.members, ∃ t, remainder? b s = some t ∧ Has v t := by
  have hproper : ∀ t ∈ a.members.filterMap (remainder? b), t.Proper := by
    intro t ht
    obtain ⟨s, hs, ht⟩ := List.mem_filterMap.1 ht
    exact (settled_remainder (ha.of_mem_members hs) hb ht).proper
  rw [without, (unionAll_spec hproper).2]
  simp only [List.mem_filterMap]
  constructor
  · rintro ⟨t, ⟨s, hs, ht⟩, hv⟩
    exact ⟨s, hs, t, ht, hv⟩
  · rintro ⟨s, hs, t, ht, hv⟩
    exact ⟨t, ⟨s, hs, ht⟩, hv⟩

theorem without_isSubtype : isSubtype (without a b) a = true := by
  refine isSubtype_of_has (settled_without ha hb).toNormal ha.toNormal fun v hv => ?_
  obtain ⟨s, hs, t, ht, hv⟩ := (has_without ha hb).1 hv
  exact has_iff_members.2 ⟨s, hs, has_of_remainder (ha.of_mem_members hs) hb ht hv⟩

/-- What is removed is covered. -/
theorem has_without_or {v : Probe} (hv : Has v a) : Has v (without a b) ∨ Has v b := by
  obtain ⟨s, hs, hv⟩ := has_iff_members.1 hv
  cases ht : remainder? b s with
  | none =>
    have hsub := remainder_eq_none_iff.1 ht
    exact .inr (has_of_isSubtype (ha.of_mem_members hs).proper hb.proper hsub hv)
  | some t =>
    refine (has_remainder_or (ha.of_mem_members hs) hb ht hv).imp_left fun hv => ?_
    exact (has_without ha hb).2 ⟨s, hs, t, ht, hv⟩

theorem isSubtype_union_without : isSubtype a (union (without a b) b) = true := by
  have hleft := (settled_without ha hb).toNormal
  refine isSubtype_of_has ha.toNormal (normal_union hleft hb.toNormal) fun v hv => ?_
  exact (has_union hleft.proper hb.proper).2 (has_without_or ha hb hv)

/-- Nothing is left exactly if all is covered. -/
theorem without_eq_never_iff : without a b = .never ↔ isSubtype a b = true := by
  constructor
  · intro hnever
    refine isSubtype_of_has ha.toNormal hb.toNormal fun v hv => ?_
    have hor := has_without_or ha hb hv
    rw [hnever] at hor
    exact hor.resolve_left not_has_never
  · intro hsub
    have hnil : a.members.filterMap (remainder? b) = [] := by
      refine List.filterMap_eq_nil_iff.2 fun s hs => remainder_eq_none_iff.2 ?_
      have hss := ha.of_mem_members hs
      refine isSubtype_of_has hss.toNormal hb.toNormal fun v hv => ?_
      exact has_of_isSubtype ha.proper hb.proper hsub (has_iff_members.2 ⟨s, hs, hv⟩)
    rw [without, hnil, unionAll_nil]

/-- The members of a difference are the remainders of the members. -/
theorem members_without (hne : without a b ≠ .never) :
    (without a b).members = a.members.filterMap (remainder? b) := by
  have hnil : a.members.filterMap (remainder? b) ≠ [] := by
    intro hnil
    exact hne (by rw [without, hnil, unionAll_nil])
  by_cases hany : a = .any
  · -- `any` is no member of a union, but it is a type by itself
    subst hany
    obtain ⟨t, ht⟩ := List.exists_mem_of_ne_nil _ hnil
    obtain ⟨s, hs, ht⟩ := List.mem_filterMap.1 ht
    obtain rfl := List.mem_singleton.1 hs
    obtain ⟨-, ⟨rfl, -⟩ | ⟨name, variants, henum, -⟩⟩ := remainder_cases ht
    · have heq : (Ty.any).members.filterMap (remainder? b) = [.any] :=
        List.filterMap_cons_some ht
      rw [without, heq]
      rfl
    · cases henum
  · have hnever : a ≠ .never := by
      rintro rfl
      exact hne ((without_eq_never_iff ha hb).2 (by simp [isSubtype]))
    have hminimal := minimal_remainders (ha.minimal_members hany hnever)
      (fun s hs => ha.of_mem_members hs) hb
    exact (unionAll_of_minimal hminimal hnil).2

theorem not_isSubtype_of_mem_without (hne : without a b ≠ .never) {t : Ty}
    (ht : t ∈ (without a b).members) : isSubtype t b = false := by
  rw [members_without ha hb hne] at ht
  obtain ⟨s, hs, ht⟩ := List.mem_filterMap.1 ht
  exact remainder_not_isSubtype (ha.of_mem_members hs) hb ht

theorem not_isSubtype_of_variant {name : String} {variants : List (String × Option Ty)}
    (ht : .enum name variants ∈ (without a b).members) {e : String × Option Ty}
    (he : e ∈ variants) : isSubtype (.enum name [e]) b = false := by
  have hne : without a b ≠ .never := by
    intro hnever
    rw [hnever] at ht
    cases List.mem_singleton.1 ht
  rw [members_without ha hb hne] at ht
  obtain ⟨s, -, ht⟩ := List.mem_filterMap.1 ht
  obtain ⟨-, ⟨rfl, hplain⟩ | ⟨name', listed, -, heq⟩⟩ := remainder_cases ht
  · exact absurd rfl (hplain name variants)
  · cases heq
    exact (mem_uncovered.1 he).2

/-- Removing again changes nothing. -/
theorem without_without : without (without a b) b = without a b := by
  by_cases hnever : without a b = .never
  · rw [hnever]
    exact (without_eq_never_iff ⟨⟨.never, .never⟩, everywhere_of_parts_nil rfl trivial⟩ hb).2
      (by simp [isSubtype])
  · have hagain : (a.members.filterMap (remainder? b)).filterMap (remainder? b) =
        a.members.filterMap (remainder? b) := by
      rw [List.filterMap_filterMap]
      refine List.filterMap_congr fun s hs => ?_
      cases ht : remainder? b s with
      | none => rfl
      | some t => exact remainder_remainder (ha.of_mem_members hs) hb ht
    calc without (without a b) b
        = unionAll ((without a b).members.filterMap (remainder? b)) := rfl
      _ = unionAll (a.members.filterMap (remainder? b)) := by
          rw [members_without ha hb hnever, hagain]

end Without

/-- Differences are what is left after removing what is covered: a subtype that together with what
was removed covers everything, `never` exactly if all is covered, with nothing in it that is
covered, and the same after removing again. -/
theorem differences_remove_what_is_covered {a b : Ty} (ha : a.Formed) (hb : b.Formed) :
    isSubtype (without a b) a = true ∧ isSubtype a (union (without a b) b) = true ∧
      (without a b = .never ↔ isSubtype a b = true) ∧
      (without a b ≠ .never → ∀ t ∈ (without a b).members, isSubtype t b = false) ∧
      (∀ name variants, .enum name variants ∈ (without a b).members →
        ∀ e ∈ variants, isSubtype (.enum name [e]) b = false) ∧
      (without (without a b) b == without a b) = true := by
  have hsa := ha.settled
  have hsb := hb.settled
  have hself : (without (without a b) b == without a b) = true := by
    rw [without_without hsa hsb]
    exact equal_self (settled_without hsa hsb)
  exact ⟨without_isSubtype hsa hsb, isSubtype_union_without hsa hsb, without_eq_never_iff hsa hsb,
    fun hne t => not_isSubtype_of_mem_without hsa hsb hne,
    fun name variants ht e => not_isSubtype_of_variant hsa hsb ht, hself⟩

theorem option_without_text :
    let option := enumOf "option" [("some", some (union string number)), ("none", none)]
    let text := enumOf "option" [("some", some string)]
    isSubtype (without option text) option = true ∧
      isSubtype option (union (without option text) text) = true ∧
      (without option text = .never ↔ isSubtype option text = true) ∧
      (without option text ≠ .never →
        ∀ t ∈ (without option text).members, isSubtype t text = false) ∧
      (∀ name variants, .enum name variants ∈ (without option text).members →
        ∀ e ∈ variants, isSubtype (.enum name [e]) text = false) ∧
      (without (without option text) text == without option text) = true := by
  have hpayload : Formed (union string number) :=
    .unionAll (by simp [Formed.string, Formed.number])
  have hinhabited : union string number ≠ .never := by
    intro hnever
    have htext : Has (.text "") (union string number) :=
      (has_union .string .number).2 (.inl (.string ""))
    rw [hnever] at htext
    exact not_has_never htext
  have hoption : Formed (enumOf "option" [("some", some (union string number)), ("none", none)]) :=
    formed_enumOf (List.cons_ne_nil _ _) (by simp [hpayload]) (by simp [hinhabited])
  have htext : Formed (enumOf "option" [("some", some string)]) :=
    formed_enumOf (List.cons_ne_nil _ _) (by simp [Formed.string]) (by simp)
  exact differences_remove_what_is_covered hoption htext

end TypedFlow.Ty
