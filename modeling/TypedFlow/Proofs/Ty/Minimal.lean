import Mathlib.Data.List.Pairwise
import TypedFlow.Proofs.Ty.Intersection

/-!
# Minimal unions

What is gathered for a union never holds one thing twice: numbers are in one set, a literal and an
enum of one name are there once, and no struct covers another. That is the invariant of gathering,
whatever types are added, and it makes the members of a union minimal and puts them in order.
-/
namespace TypedFlow.Ty

/-- May be a member of a union. -/
structure Single (t : Ty) : Prop where
  notAny : t ≠ .any
  notNever : t ≠ .never
  plain : t.Plain

/-- The kinds of which a union has one member at most: numbers, and the enums of one name. -/
def kind? : Ty → Option (Option String)
  | .number | .numeric _ => some none
  | .enum name _ => some (some name)
  | _ => none

/-- Not of one kind. -/
def Apart (s t : Ty) : Prop := s.kind? = none ∨ s.kind? ≠ t.kind?

/-- The order of members: numbers, strings, enums, structs. -/
def rank : Ty → ℕ
  | .number | .numeric _ => 0
  | .string | .stringLiteral _ => 1
  | .enum _ _ => 2
  | .struct _ _ => 3
  | .any | .never | .oneOf _ => 4

/-- Neither type is a subtype of the other. -/
def Incomparable (s t : Ty) : Prop := isSubtype s t = false ∧ isSubtype t s = false

/-- A numeric set is neither nothing nor everything, and an enum has a variant. -/
def Filled : Ty → Prop
  | .numeric set => set.isEmpty = false ∧ set.isAllReals = false
  | .enum _ variants => variants ≠ []
  | _ => True

/-- Members none of which could be left out or merged with another, in their order. -/
structure Minimal (members : List Ty) : Prop where
  single : ∀ t ∈ members, t.Single
  filled : ∀ t ∈ members, t.Filled
  irredundant : members.Pairwise Incomparable
  apart : members.Pairwise Apart
  texts : .string ∈ members → ∀ content, .stringLiteral content ∉ members
  literals : members.Pairwise fun s t => ∀ content, s = .stringLiteral content → t ≠ s
  ordered : members.Pairwise fun s t => s.rank ≤ t.rank

section Members
variable {s t : Ty}

theorem isSubtype_of_rank_ne (hs : s.Single) (ht : t.Single) (h : s.rank ≠ t.rank) :
    isSubtype s t = false := by
  rw [← Bool.not_eq_true]
  intro hsub
  cases covered_of_isSubtype hsub with
  | never => exact hs.notNever rfl
  | any => exact ht.notAny rfl
  | union => exact hs.plain _ rfl
  | member => exact ht.plain _ rfl
  | _ => exact h rfl

theorem Single.isSubtype_oneOf_iff {members : List Ty} (hs : s.Single) :
    isSubtype s (.oneOf members) = true ↔ ∃ t ∈ members, isSubtype s t = true := by
  rw [← withinSome_iff]
  rw [isSubtype]
  exacts [hs.notNever, hs.notAny, hs.plain]

theorem incomparable_of_rank_ne (hs : s.Single) (ht : t.Single) (h : s.rank ≠ t.rank) :
    Incomparable s t :=
  ⟨isSubtype_of_rank_ne hs ht h, isSubtype_of_rank_ne ht hs h.symm⟩

theorem incomparable_enum {name name' : String} {variants listed : List (String × Option Ty)}
    (h : name ≠ name') : Incomparable (.enum name variants) (.enum name' listed) := by
  constructor
  · rw [isSubtype, beq_eq_false_iff_ne.2 h, Bool.false_and]
  · rw [isSubtype, beq_eq_false_iff_ne.2 h.symm, Bool.false_and]

theorem apart_of_rank_lt (h : s.rank < t.rank) : Apart s t := by
  cases s with
  | number | numeric =>
    cases t with
    | number | numeric => exact absurd h (Nat.lt_irrefl 0)
    | _ => exact .inr (by simp [kind?])
  | enum =>
    cases t with
    | enum => exact absurd h (Nat.lt_irrefl 2)
    | _ => exact .inr (by simp [kind?])
  | _ => exact .inl rfl

theorem single_of_rank_lt (h : t.rank < 4) : t.Single := by
  cases t with
  | any | never | oneOf => exact absurd h (Nat.lt_irrefl 4)
  | _ => exact ⟨by simp, by simp, by simp [Plain]⟩

instance : Std.Symm Incomparable := ⟨fun _ _ h => ⟨h.2, h.1⟩⟩

/-- Literals are comparable with `string` and with themselves, so both are there only once. -/
theorem minimal_of_irredundant {members : List Ty} (hrank : ∀ t ∈ members, t.rank < 4)
    (hfilled : ∀ t ∈ members, t.Filled) (hirredundant : members.Pairwise Incomparable)
    (hapart : members.Pairwise Apart) (hordered : members.Pairwise fun s t => s.rank ≤ t.rank) :
    Minimal members where
  single t ht := single_of_rank_lt (hrank t ht)
  filled := hfilled
  irredundant := hirredundant
  apart := hapart
  texts hstring content hcontent := by
    have hcovered : isSubtype (.stringLiteral content) .string = true := by rw [isSubtype]
    have hnot := (hirredundant.forall hcontent hstring (by simp)).1
    rw [hcovered] at hnot
    cases hnot
  literals := hirredundant.imp fun {s t} hst content hs ht => by
    subst hs ht
    have hself : isSubtype (.stringLiteral content) (.stringLiteral content) = true := by
      rw [isSubtype, beq_self_eq_true]
    rw [hst.1] at hself
    cases hself
  ordered := hordered

theorem minimal_singleton (hrank : t.rank < 4) (hfilled : t.Filled) : Minimal [t] :=
  minimal_of_irredundant (by simpa using hrank) (by simpa using hfilled)
    (List.pairwise_singleton _ t) (List.pairwise_singleton _ t) (List.pairwise_singleton _ t)

/-- Members of one rank are in order. -/
theorem minimal_of_rank_eq {members : List Ty} {r : ℕ} (hr : r < 4)
    (hrank : ∀ t ∈ members, t.rank = r) (hfilled : ∀ t ∈ members, t.Filled)
    (hirredundant : members.Pairwise Incomparable) (hapart : members.Pairwise Apart) :
    Minimal members :=
  minimal_of_irredundant (fun t ht => (hrank t ht).trans_lt hr) hfilled hirredundant hapart
    (List.pairwise_of_forall_mem_list fun s hs t ht => (hrank s hs).trans_le (hrank t ht).ge)

theorem Minimal.rank_lt {members : List Ty} (h : Minimal members) (ht : t ∈ members) :
    t.rank < 4 := by
  obtain ⟨hany, hnever, hplain⟩ := h.single t ht
  cases t with
  | any => exact absurd rfl hany
  | never => exact absurd rfl hnever
  | oneOf => exact absurd rfl (hplain _)
  | _ => simp [rank]

theorem Minimal.sublist {members others : List Ty} (h : Minimal members)
    (hs : others.Sublist members) : Minimal others where
  single t ht := h.single t (hs.subset ht)
  filled t ht := h.filled t (hs.subset ht)
  irredundant := h.irredundant.sublist hs
  apart := h.apart.sublist hs
  texts hstring content hcontent := h.texts (hs.subset hstring) content (hs.subset hcontent)
  literals := h.literals.sublist hs
  ordered := h.ordered.sublist hs

/-- Minimal members before others of higher rank. -/
theorem Minimal.append {xs ys : List Ty} (hx : Minimal xs) (hy : Minimal ys)
    (h : ∀ s ∈ xs, ∀ t ∈ ys, s.rank < t.rank) : Minimal (xs ++ ys) := by
  refine minimal_of_irredundant
    (fun t ht => (List.mem_append.1 ht).elim hx.rank_lt hy.rank_lt)
    (fun t ht => (List.mem_append.1 ht).elim (hx.filled t) (hy.filled t))
    (List.pairwise_append.2 ⟨hx.irredundant, hy.irredundant, fun s hs t ht => ?_⟩)
    (List.pairwise_append.2 ⟨hx.apart, hy.apart, fun s hs t ht => ?_⟩)
    (List.pairwise_append.2 ⟨hx.ordered, hy.ordered, fun s hs t ht => (h s hs t ht).le⟩)
  · exact incomparable_of_rank_ne (hx.single s hs) (hy.single t ht) (h s hs t ht).ne
  · exact apart_of_rank_lt (h s hs t ht)

end Members

namespace Gathered
variable {join : Ty → Ty → Ty} {g : Gathered}

/-- Nothing has been gathered twice. -/
structure Distinct (g : Gathered) : Prop where
  literals : g.literals.Nodup
  enums : (Entries.names g.enums).Nodup
  structs : g.structs.Pairwise fun s t => Incomparable (.struct s.1 s.2) (.struct t.1 t.2)

theorem distinct_empty : Distinct .empty := ⟨.nil, .nil, .nil⟩

theorem names_addEnum {name : String} {variants : List (String × Option Ty)}
    {enums : List (String × List (String × Option Ty))} :
    Entries.names (addEnum join name variants enums) =
      if name ∈ Entries.names enums then Entries.names enums else Entries.names enums ++ [name] := by
  induction enums with
  | nil => rfl
  | cons entry enums ih =>
    obtain ⟨other, present⟩ := entry
    by_cases hname : other = name
    · rw [addEnum, if_pos (beq_iff_eq.2 hname)]
      simp [hname]
    · rw [addEnum, if_neg (by simpa using hname), Entries.names_cons, Entries.names_cons, ih]
      simp only [List.mem_cons, Ne.symm hname, false_or]
      split
      · rfl
      · rfl

theorem nodup_addEnum {name : String} {variants : List (String × Option Ty)}
    {enums : List (String × List (String × Option Ty))} (h : (Entries.names enums).Nodup) :
    (Entries.names (addEnum join name variants enums)).Nodup := by
  rw [names_addEnum]
  split
  · exact h
  · rename_i hnew
    exact List.nodup_append.2 ⟨h, List.pairwise_singleton _ _, by
      rintro a ha b hb rfl
      exact hnew (List.mem_singleton.1 hb ▸ ha)⟩

theorem mem_addStruct {name : String} {fields : List (String × Ty)}
    {structs : List (String × List (String × Ty))} {s : String × List (String × Ty)}
    (h : s ∈ addStruct name fields structs) : s = (name, fields) ∨ s ∈ structs := by
  simp only [addStruct] at h
  split at h
  · exact .inr h
  · rcases List.mem_append.1 h with h | h
    · exact .inr (List.mem_filter.1 h).1
    · exact .inl (List.mem_singleton.1 h)

theorem pairwise_addStruct {name : String} {fields : List (String × Ty)}
    {structs : List (String × List (String × Ty))}
    (h : structs.Pairwise fun s t => Incomparable (.struct s.1 s.2) (.struct t.1 t.2)) :
    (addStruct name fields structs).Pairwise
      fun s t => Incomparable (.struct s.1 s.2) (.struct t.1 t.2) := by
  simp only [addStruct]
  split
  · exact h
  · rename_i hnone
    refine List.pairwise_append.2 ⟨h.filter _, List.pairwise_singleton _ _, fun s hs t ht => ?_⟩
    rw [List.mem_singleton.1 ht]
    rw [List.mem_filter, Bool.not_eq_true'] at hs
    refine ⟨hs.2, ?_⟩
    rw [← Bool.not_eq_true]
    exact fun hsub => hnone (List.any_eq_true.2 ⟨s, hs.1, hsub⟩)

theorem distinct_add (hg : g.Distinct) (t : Ty) : (add join g t).Distinct := by
  cases t with
  | any | never | number | string | numeric | oneOf => exact ⟨hg.literals, hg.enums, hg.structs⟩
  | stringLiteral content =>
    simp only [add]
    split
    · exact hg
    · rename_i hnew
      refine ⟨List.nodup_append.2 ⟨hg.literals, List.pairwise_singleton _ _, ?_⟩, hg.enums, hg.structs⟩
      rintro a ha b hb rfl
      rw [List.mem_singleton.1 hb] at ha
      exact hnew (by simpa using ha)
  | enum name variants => exact ⟨hg.literals, nodup_addEnum hg.enums, hg.structs⟩
  | struct name fields => exact ⟨hg.literals, hg.enums, pairwise_addStruct hg.structs⟩

theorem distinct_foldl_add (types : List Ty) : (types.foldl (add join) .empty).Distinct :=
  List.foldlRecOn types _ distinct_empty fun _ hg t _ => distinct_add hg t

section Build

theorem ofNumericSet_cases (set : NumericSet) :
    ofNumericSet set = .never ∨ ofNumericSet set = .number ∨
      ofNumericSet set = .numeric set ∧ (Ty.numeric set).Filled := by
  simp only [ofNumericSet]
  split
  · exact .inl rfl
  · rename_i hempty
    split
    · exact .inr (.inl rfl)
    · rename_i hall
      exact .inr (.inr ⟨rfl, by simpa using hempty, by simpa using hall⟩)

theorem numericMembers_cases (g : Gathered) :
    g.numericMembers = [] ∨ g.numericMembers = [.number] ∨
      ∃ set, g.numeric = some set ∧ g.numericMembers = [.numeric set] ∧
        (Ty.numeric set).Filled := by
  simp only [numericMembers]
  split
  · exact .inr (.inl rfl)
  · cases hset : g.numeric with
    | none => exact .inl rfl
    | some set =>
      rw [Option.map_some]
      rcases ofNumericSet_cases set with hof | hof | ⟨hof, hfilled⟩
      · rw [hof]
        exact .inl rfl
      · rw [hof]
        exact .inr (.inl rfl)
      · rw [hof]
        exact .inr (.inr ⟨set, rfl, rfl, hfilled⟩)

theorem minimal_numericMembers (g : Gathered) :
    Minimal g.numericMembers ∧ ∀ t ∈ g.numericMembers, t.rank = 0 := by
  rcases numericMembers_cases g with hcase | hcase | ⟨set, -, hcase, hfilled⟩
  · rw [hcase]
    exact ⟨minimal_of_rank_eq (Nat.succ_pos 3) (by simp) (by simp) .nil .nil, by simp⟩
  · rw [hcase]
    exact ⟨minimal_singleton (Nat.succ_pos 3) trivial, by simp [rank]⟩
  · rw [hcase]
    exact ⟨minimal_singleton (Nat.succ_pos 3) hfilled, by simp [rank]⟩

theorem minimal_texts (hg : g.Distinct) :
    Minimal (if g.string then [.string] else g.literals.map .stringLiteral) ∧
      ∀ t ∈ (if g.string then [.string] else g.literals.map .stringLiteral : List Ty),
        t.rank = 1 := by
  split
  · exact ⟨minimal_singleton (by decide) trivial, by simp [rank]⟩
  · have hrank : ∀ t ∈ g.literals.map Ty.stringLiteral, t.rank = 1 := by simp [rank]
    refine ⟨minimal_of_rank_eq (by decide) hrank (by simp [Filled]) ?_ ?_, hrank⟩
    · refine List.pairwise_map.2 (hg.literals.imp fun {a b} hne => ⟨?_, ?_⟩)
      · rw [isSubtype, beq_eq_false_iff_ne.2 hne]
      · rw [isSubtype, beq_eq_false_iff_ne.2 hne.symm]
    · exact List.pairwise_map.2 (hg.literals.imp fun _ => .inl rfl)

theorem minimal_enums (hg : g.Distinct) :
    Minimal ((g.enums.filter (!·.2.isEmpty)).map fun e => .enum e.1 e.2) := by
  have hnames : (g.enums.filter (!·.2.isEmpty)).Pairwise fun e f => e.1 ≠ f.1 :=
    (List.pairwise_map.1 hg.enums).filter _
  have hrank : ∀ t ∈ (g.enums.filter (!·.2.isEmpty)).map (fun e => Ty.enum e.1 e.2),
      t.rank = 2 := List.forall_mem_map.2 fun _ _ => rfl
  refine minimal_of_rank_eq (by decide) hrank (fun t ht => ?_) ?_ ?_
  · obtain ⟨e, he, rfl⟩ := List.mem_map.1 ht
    simpa [Filled] using (List.mem_filter.1 he).2
  · exact List.pairwise_map.2 (hnames.imp incomparable_enum)
  · exact List.pairwise_map.2 (hnames.imp fun hne => .inr (by simpa [kind?] using hne))

theorem minimal_structs (hg : g.Distinct) :
    Minimal (g.structs.map fun s => .struct s.1 s.2) := by
  have hrank : ∀ t ∈ g.structs.map (fun s => Ty.struct s.1 s.2), t.rank = 3 :=
    List.forall_mem_map.2 fun _ _ => rfl
  exact minimal_of_rank_eq (by decide) hrank (List.forall_mem_map.2 fun _ _ => trivial)
    (List.pairwise_map.2 hg.structs) (List.pairwise_map.2 (hg.structs.imp fun _ => .inl rfl))

theorem minimal_memberList (hg : g.Distinct) : Minimal g.memberList := by
  obtain ⟨hnumbers, hzero⟩ := minimal_numericMembers g
  obtain ⟨htexts, hone⟩ := minimal_texts hg
  have hfirst := hnumbers.append htexts fun s hs t ht => by
    rw [hzero s hs, hone t ht]
    exact Nat.zero_lt_one
  have hle : ∀ s ∈ g.numericMembers ++
      (if g.string then [.string] else g.literals.map .stringLiteral : List Ty), s.rank ≤ 1 := by
    intro s hs
    rcases List.mem_append.1 hs with hs | hs
    · exact (hzero s hs).trans_le (Nat.zero_le 1)
    · exact (hone s hs).le
  have hsecond := hfirst.append (minimal_enums hg) fun s hs t ht => by
    obtain ⟨e, -, rfl⟩ := List.mem_map.1 ht
    exact Nat.lt_succ_of_le (hle s hs)
  refine hsecond.append (minimal_structs hg) fun s hs t ht => ?_
  obtain ⟨e, -, rfl⟩ := List.mem_map.1 ht
  refine Nat.lt_succ_of_le ?_
  rcases List.mem_append.1 hs with hs | hs
  · exact (hle s hs).trans (Nat.le_succ 1)
  · obtain ⟨f, -, rfl⟩ := List.mem_map.1 hs
    exact le_rfl

/-- What is built: everything, nothing, the only member, or the union of two members or more. -/
theorem build_cases (g : Gathered) :
    g.any = true ∧ g.build = .any ∨ g.any = false ∧ (g.memberList = [] ∧ g.build = .never ∨
      (∃ only, g.memberList = [only] ∧ g.build = only) ∨
        2 ≤ g.memberList.length ∧ g.build = .oneOf g.memberList) := by
  simp only [build]
  split
  · rename_i hany
    exact .inl ⟨hany, rfl⟩
  · rename_i hany
    refine .inr ⟨by simpa using hany, ?_⟩
    split
    · rename_i hnil
      exact .inl ⟨hnil, rfl⟩
    · rename_i only honly
      exact .inr (.inl ⟨only, honly, rfl⟩)
    · rename_i hnil hone
      refine .inr (.inr ⟨?_, rfl⟩)
      cases hlist : g.memberList with
      | nil => exact absurd hlist hnil
      | cons first rest =>
        cases rest with
        | nil => exact absurd hlist (hone first)
        | cons => simp

end Build

end Gathered

end TypedFlow.Ty
