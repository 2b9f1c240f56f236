import Mathlib.Data.List.Induction
import TypedFlow.Proofs.Ty.Tidy

/-!
# Gathering minimal members

Members that are minimal and in order come out of a union as they went in: nothing is merged,
nothing is covered by what was gathered before, and each one is put last.
-/
namespace TypedFlow.Ty

namespace Gathered
variable {join : Ty → Ty → Ty} {g : Gathered} {members : List Ty} {t : Ty}

/-- Has been gathered, whether or not it shows among the members. -/
def Recorded (g : Gathered) : Ty → Prop
  | .any => g.any = true
  | .number => g.number = true
  | .string => g.string = true
  | .numeric set => g.numeric = some set
  | .stringLiteral content => content ∈ g.literals
  | .enum name variants => (name, variants) ∈ g.enums
  | .struct name fields => (name, fields) ∈ g.structs
  | .never | .oneOf _ => False

/-- Exactly the members of a list have been gathered. -/
structure Exactly (members : List Ty) (g : Gathered) : Prop where
  recorded : ∀ s, g.Recorded s → s ∈ members
  memberList : g.memberList = members

theorem exactly_empty : Exactly [] .empty where
  recorded s h := by
    cases s with
    | any | number | string => cases h
    | numeric => cases h
    | stringLiteral | enum | struct => cases h
    | never | oneOf => cases h
  memberList := rfl

section Step

theorem Exactly.structs_eq_nil (hg : g.Exactly members) (h : ∀ s ∈ members, s.rank < 3) :
    g.structs = [] :=
  List.eq_nil_iff_forall_not_mem.2 fun s hs =>
    absurd (h _ (hg.recorded (.struct s.1 s.2) hs)) (Nat.lt_irrefl 3)

theorem Exactly.enums_eq_nil (hg : g.Exactly members) (h : ∀ s ∈ members, s.rank < 2) :
    g.enums = [] :=
  List.eq_nil_iff_forall_not_mem.2 fun e he =>
    absurd (h _ (hg.recorded (.enum e.1 e.2) he)) (Nat.lt_irrefl 2)

theorem addEnum_of_fresh {name : String} {variants : List (String × Option Ty)}
    {enums : List (String × List (String × Option Ty))} (h : ∀ e ∈ enums, e.1 ≠ name) :
    addEnum join name variants enums = enums ++ [(name, variants)] := by
  induction enums with
  | nil => rfl
  | cons e enums ih =>
    obtain ⟨hne, h⟩ := List.forall_mem_cons.1 h
    rw [addEnum, if_neg (by simpa using hne), ih h, List.cons_append]

theorem addStruct_of_incomparable {name : String} {fields : List (String × Ty)}
    {structs : List (String × List (String × Ty))}
    (h : ∀ s ∈ structs, Incomparable (.struct s.1 s.2) (.struct name fields)) :
    addStruct name fields structs = structs ++ [(name, fields)] := by
  have hnone : ¬ (structs.any fun s => (Ty.struct name fields).isSubtype (.struct s.1 s.2)) := by
    rw [List.any_eq_true]
    rintro ⟨s, hs, hsub⟩
    rw [(h s hs).2] at hsub
    cases hsub
  have hkept : structs.filter (fun s => !(Ty.struct s.1 s.2).isSubtype (.struct name fields)) =
      structs := by
    refine List.filter_eq_self.2 fun s hs => ?_
    rw [(h s hs).1, Bool.not_false]
  simp only [addStruct]
  rw [if_neg hnone, hkept]

theorem Exactly.texts_eq_nil (hg : g.Exactly members) (h : ∀ s ∈ members, s.rank < 1) :
    g.string = false ∧ g.literals = [] := by
  refine ⟨?_, List.eq_nil_iff_forall_not_mem.2 fun content hcontent => ?_⟩
  · rw [← Bool.not_eq_true]
    exact fun hs => absurd (h _ (hg.recorded .string hs)) (Nat.lt_irrefl 1)
  · exact absurd (h _ (hg.recorded (.stringLiteral content) hcontent)) (Nat.lt_irrefl 1)

theorem Exactly.numeric_eq_nil (hg : g.Exactly []) : g.number = false ∧ g.numeric = none := by
  refine ⟨?_, Option.eq_none_iff_forall_ne_some.2 fun set hset => ?_⟩
  · rw [← Bool.not_eq_true]
    exact fun hs => List.not_mem_nil (hg.recorded .number hs)
  · exact List.not_mem_nil (hg.recorded (.numeric set) hset)

/-- Numbers come first, and in one place. -/
theorem eq_nil_of_numeric (ht : t.kind? = some none) (hrank : t.rank = 0)
    (h : ∀ s ∈ members, Apart s t ∧ s.rank ≤ t.rank) : members = [] := by
  refine List.eq_nil_iff_forall_not_mem.2 fun s hs => ?_
  obtain ⟨hapart, hle⟩ := h s hs
  rw [hrank, Nat.le_zero] at hle
  have hkind : s.kind? = some none := by
    cases s with
    | number | numeric => rfl
    | _ => cases hle
  rw [Apart, hkind, ht] at hapart
  simp at hapart

/-- A type that comes after the members and is kept apart from them. -/
def Follows (members : List Ty) (t : Ty) : Prop :=
  ∀ s ∈ members, Incomparable s t ∧ Apart s t ∧ s.rank ≤ t.rank

theorem follows_of_minimal (h : Minimal (members ++ [t])) : Follows members t := fun s hs =>
  ⟨(List.pairwise_append.1 h.irredundant).2.2 s hs t (by simp),
    (List.pairwise_append.1 h.apart).2.2 s hs t (by simp),
    (List.pairwise_append.1 h.ordered).2.2 s hs t (by simp)⟩

theorem Follows.rank_lt {r : ℕ} (h : Follows members t) (hr : t.rank < r) :
    ∀ s ∈ members, s.rank < r := fun s hs => (h s hs).2.2.trans_lt hr

theorem Exactly.append {g' : Gathered} (hg : g.Exactly members)
    (hnew : ∀ s, g'.Recorded s → s = t ∨ g.Recorded s)
    (hlist : g'.memberList = g.memberList ++ [t]) : g'.Exactly (members ++ [t]) where
  recorded s hs := by
    rcases hnew s hs with rfl | hs
    · simp
    · exact List.mem_append_left _ (hg.recorded s hs)
  memberList := by rw [hlist, hg.memberList]

theorem Exactly.add_number (hg : g.Exactly members) (h : Follows members .number) :
    (g.add join .number).Exactly (members ++ [.number]) := by
  obtain rfl := eq_nil_of_numeric rfl rfl fun s hs => (h s hs).2
  obtain ⟨hstring, hliterals⟩ := hg.texts_eq_nil (by simp)
  obtain ⟨-, hnumeric⟩ := hg.numeric_eq_nil
  refine hg.append (fun s hs => ?_) ?_
  · cases s with
    | number => exact .inl rfl
    | _ => exact .inr hs
  · rw [hg.memberList]
    simp [Gathered.memberList, add, numericMembers, hstring, hliterals,
      hg.enums_eq_nil (by simp), hg.structs_eq_nil (by simp)]

theorem Exactly.add_numeric {set : NumericSet} (hg : g.Exactly members)
    (h : Follows members (.numeric set)) (hfilled : (Ty.numeric set).Filled) :
    (g.add join (.numeric set)).Exactly (members ++ [.numeric set]) := by
  obtain rfl := eq_nil_of_numeric rfl rfl fun s hs => (h s hs).2
  obtain ⟨hstring, hliterals⟩ := hg.texts_eq_nil (by simp)
  obtain ⟨hnumber, hnumeric⟩ := hg.numeric_eq_nil
  have hadd : g.add join (.numeric set) = { g with numeric := some set } := by
    rw [add, hnumeric, Option.elim_none]
  rw [hadd]
  refine hg.append (fun s hs => ?_) ?_
  · cases s with
    | numeric other => exact .inl (congrArg Ty.numeric (Option.some.inj hs).symm)
    | _ => exact .inr hs
  · have hof : ofNumericSet set = .numeric set := by
      simp [ofNumericSet, hfilled.1, hfilled.2]
    rw [hg.memberList]
    simp [Gathered.memberList, numericMembers, hnumber, hstring, hliterals, hof,
      hg.enums_eq_nil (by simp), hg.structs_eq_nil (by simp)]

theorem Exactly.add_string (hg : g.Exactly members) (h : Follows members .string) :
    (g.add join .string).Exactly (members ++ [.string]) := by
  have hfirst : ∀ s ∈ members, s.rank < 1 := by
    intro s hs
    refine lt_of_le_of_ne (h s hs).2.2 fun hr => ?_
    cases s with
    | string | stringLiteral => exact absurd (h _ hs).1.1 (by simp [isSubtype])
    | _ => cases hr
  obtain ⟨hstring, hliterals⟩ := hg.texts_eq_nil hfirst
  refine hg.append (fun s hs => ?_) ?_
  · cases s with
    | string => exact .inl rfl
    | _ => exact .inr hs
  · simp [Gathered.memberList, add, numericMembers, hstring, hliterals,
      hg.enums_eq_nil (h.rank_lt (Nat.lt_succ_self 1)),
      hg.structs_eq_nil (h.rank_lt (Nat.lt_add_of_pos_right Nat.two_pos))]

theorem Exactly.add_stringLiteral {content : String} (hg : g.Exactly members)
    (h : Follows members (.stringLiteral content)) :
    (g.add join (.stringLiteral content)).Exactly (members ++ [.stringLiteral content]) := by
  have hstring : g.string = false := by
    rw [← Bool.not_eq_true]
    exact fun hs => absurd (h _ (hg.recorded .string hs)).1.2 (by simp [isSubtype])
  have hfresh : ¬ g.literals.contains content = true := by
    rw [List.contains_iff_mem]
    exact fun hs => absurd (h _ (hg.recorded (.stringLiteral content) hs)).1.1
      (by simp [isSubtype])
  have hadd : g.add join (.stringLiteral content) =
      { g with literals := g.literals ++ [content] } := by
    rw [add, if_neg hfresh]
  rw [hadd]
  refine hg.append (fun s hs => ?_) ?_
  · cases s with
    | stringLiteral other =>
      exact ((List.mem_append.1 hs).imp_right List.mem_singleton.1).symm.imp_left
        (congrArg Ty.stringLiteral)
    | _ => exact .inr hs
  · simp [Gathered.memberList, numericMembers, hstring,
      hg.enums_eq_nil (h.rank_lt (Nat.lt_succ_self 1)),
      hg.structs_eq_nil (h.rank_lt (Nat.lt_add_of_pos_right Nat.two_pos))]

theorem Exactly.add_enum {name : String} {variants : List (String × Option Ty)}
    (hg : g.Exactly members) (h : Follows members (.enum name variants)) (hne : variants ≠ []) :
    (g.add join (.enum name variants)).Exactly (members ++ [.enum name variants]) := by
  have hfresh : ∀ e ∈ g.enums, e.1 ≠ name := by
    intro e he heq
    rcases (h _ (hg.recorded (.enum e.1 e.2) he)).2.1 with hnone | hkind
    · cases hnone
    · exact hkind (by rw [kind?, kind?, heq])
  have hadd : g.add join (.enum name variants) =
      { g with enums := g.enums ++ [(name, variants)] } := by
    rw [add, addEnum_of_fresh hfresh]
  rw [hadd]
  refine hg.append (fun s hs => ?_) ?_
  · cases s with
    | enum other listed =>
      refine ((List.mem_append.1 hs).imp_right fun heq => ?_).symm
      cases List.mem_singleton.1 heq
      rfl
    | _ => exact .inr hs
  · simp [Gathered.memberList, numericMembers, List.filter_append, hne,
      hg.structs_eq_nil (h.rank_lt (Nat.lt_succ_self 2))]

theorem Exactly.add_struct {name : String} {fields : List (String × Ty)}
    (hg : g.Exactly members) (h : Follows members (.struct name fields)) :
    (g.add join (.struct name fields)).Exactly (members ++ [.struct name fields]) := by
  have hadd : g.add join (.struct name fields) =
      { g with structs := g.structs ++ [(name, fields)] } := by
    rw [add, addStruct_of_incomparable fun s hs => (h _ (hg.recorded (.struct s.1 s.2) hs)).1]
  rw [hadd]
  refine hg.append (fun s hs => ?_) ?_
  · cases s with
    | struct other others =>
      refine ((List.mem_append.1 hs).imp_right fun heq => ?_).symm
      cases List.mem_singleton.1 heq
      rfl
    | _ => exact .inr hs
  · simp [Gathered.memberList, numericMembers]

/-- A new member that is kept apart from those gathered before is put last. -/
theorem Exactly.add (hg : g.Exactly members) (h : Minimal (members ++ [t])) :
    (g.add join t).Exactly (members ++ [t]) := by
  have hfollows := follows_of_minimal h
  have hsingle := h.single t (by simp)
  have hfilled := h.filled t (by simp)
  cases t with
  | any => exact absurd rfl hsingle.notAny
  | never => exact absurd rfl hsingle.notNever
  | oneOf => exact absurd rfl (hsingle.plain _)
  | number => exact hg.add_number hfollows
  | string => exact hg.add_string hfollows
  | numeric set => exact hg.add_numeric hfollows hfilled
  | stringLiteral content => exact hg.add_stringLiteral hfollows
  | enum name variants => exact hg.add_enum hfollows hfilled
  | struct name fields => exact hg.add_struct hfollows

theorem exactly_foldl_add (h : Minimal members) :
    (members.foldl (Gathered.add join) .empty).Exactly members := by
  induction members using List.reverseRecOn with
  | nil => exact exactly_empty
  | append_singleton members t ih =>
    rw [List.foldl_append]
    exact (ih (h.sublist (List.sublist_append_left _ _))).add h

end Step

end Gathered

section Union
variable {members : List Ty}

theorem unionAll_nil : unionAll [] = .never := rfl

/-- A union of minimal members has just these. -/
theorem unionAll_of_minimal (h : Minimal members) (hne : members ≠ []) :
    unionAll members ≠ .never ∧ (unionAll members).members = members := by
  have hexactly : (members.foldl (Gathered.add union) .empty).Exactly members :=
    Gathered.exactly_foldl_add h
  have hnotany : ∀ {g : Gathered}, g.Exactly members → g.any = false := by
    intro g hg
    rw [← Bool.not_eq_true]
    exact fun hany => absurd rfl (h.single _ (hg.recorded .any hany)).notAny
  rw [unionAll_eq, h.flattenAll]
  rcases Gathered.build_cases (members.foldl (Gathered.add union) .empty) with
    ⟨hany, -⟩ | ⟨-, ⟨hnil, -⟩ | ⟨only, honly, hb⟩ | ⟨-, hb⟩⟩
  · rw [hnotany hexactly] at hany
    cases hany
  · exact absurd (hexactly.memberList.symm.trans hnil) hne
  · obtain rfl := hexactly.memberList.symm.trans honly
    have hsingle := h.single only (List.mem_singleton_self only)
    rw [hb]
    refine ⟨hsingle.notNever, ?_⟩
    cases only with
    | oneOf => exact absurd rfl (hsingle.plain _)
    | _ => rfl
  · rw [hb, hexactly.memberList]
    exact ⟨by simp, rfl⟩

end Union

end TypedFlow.Ty
