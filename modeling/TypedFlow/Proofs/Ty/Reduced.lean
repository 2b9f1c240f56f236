import TypedFlow.Proofs.NumericSet.Containment
import TypedFlow.Proofs.Ty.Layers

/-!
# Reduced types

The form in which unions and intersections leave types: numeric sets are canonical and not the whole
line, and the members of a union are no unions, hold numbers in one place and have one enum for a
name. The subtype test, which compares with single members of a union, relies on this.
-/
namespace TypedFlow.Ty

inductive Reduced : Ty → Prop
  | any : Reduced .any
  | never : Reduced .never
  | number : Reduced .number
  | string : Reduced .string
  | stringLiteral (content : String) : Reduced (.stringLiteral content)
  | numeric {set : NumericSet} (canonical : set.Canonical) (bounded : set.isAllReals = false) :
      Reduced (.numeric set)
  | struct {name : String} {fields : List (String × Ty)}
      (reduced : ∀ entry ∈ fields, Reduced entry.2) : Reduced (.struct name fields)
  | enum {name : String} {variants : List (String × Option Ty)}
      (reduced : ∀ entry ∈ variants, ∀ t, entry.2 = some t → Reduced t) :
      Reduced (.enum name variants)
  | oneOf {members : List Ty} (reduced : ∀ t ∈ members, Reduced t)
      (single : ∀ t ∈ members, t.Single) (apart : members.Pairwise Apart) :
      Reduced (.oneOf members)

/-- What is asked of each layer of a reduced type. -/
def ReducedLayer : Ty → Prop
  | .numeric set => set.Canonical ∧ set.isAllReals = false
  | .oneOf members => (∀ t ∈ members, t.Single) ∧ members.Pairwise Apart
  | _ => True

theorem Reduced.everywhere {t : Ty} (h : t.Reduced) : Everywhere ReducedLayer t := by
  induction h with
  | any | never | number | string | stringLiteral => exact everywhere_of_parts_nil rfl trivial
  | numeric canonical bounded => exact everywhere_of_parts_nil rfl ⟨canonical, bounded⟩
  | struct _ ih => exact everywhere_struct_iff.2 ⟨trivial, ih⟩
  | enum _ ih => exact everywhere_enum_iff.2 ⟨trivial, ih⟩
  | oneOf _ single apart ih => exact .intro ⟨single, apart⟩ ih

theorem reduced_of_everywhere {t : Ty} (h : Everywhere ReducedLayer t) : t.Reduced := by
  induction h with
  | @intro t here inside ih =>
    cases t with
    | any => exact .any
    | never => exact .never
    | number => exact .number
    | string => exact .string
    | stringLiteral content => exact .stringLiteral content
    | numeric set => exact .numeric here.1 here.2
    | struct name fields => exact .struct (List.forall_mem_map.1 ih)
    | enum name variants =>
      exact .enum fun entry hentry t ht => ih t (List.mem_filterMap.2 ⟨entry, hentry, ht⟩)
    | oneOf members => exact .oneOf ih here.1 here.2

theorem kept_reducedLayer : Kept ReducedLayer NumericSet.Canonical where
  any := trivial
  never := trivial
  number := trivial
  string := trivial
  stringLiteral _ := trivial
  set h := h.1
  numeric h hfilled := ⟨h, hfilled.2⟩
  union := NumericSet.canonical_union
  intersect := NumericSet.canonical_intersect
  struct _ _ := trivial
  enum _ _ _ := trivial
  merge _ _ _ := trivial
  oneOf _ hminimal := ⟨hminimal.single, hminimal.apart⟩

theorem reduced_ofNumericSet {set : NumericSet} (h : set.Canonical) : (ofNumericSet set).Reduced :=
  reduced_of_everywhere (kept_reducedLayer.ofNumericSet h)

theorem reduced_unionAll {types : List Ty} (h : ∀ t ∈ types, t.Reduced) :
    (unionAll types).Reduced :=
  reduced_of_everywhere (everywhere_unionAll kept_reducedLayer fun t ht => (h t ht).everywhere)

theorem reduced_intersect {a b : Ty} (ha : a.Reduced) (hb : b.Reduced) :
    (intersect a b).Reduced :=
  reduced_of_everywhere (everywhere_intersect kept_reducedLayer ha.everywhere hb.everywhere)

theorem eq_of_kind {members : List Ty} {s t : Ty} {k : Option String}
    (h : members.Pairwise Apart) (hs : s ∈ members) (ht : t ∈ members) (hks : s.kind? = some k)
    (hkt : t.kind? = some k) : s = t := by
  have hnot : ∀ {r r' : Ty}, r.kind? = some k → r'.kind? = some k → ¬ Apart r r' := by
    intro r r' hr hr' hapart
    rcases hapart with hnone | hne
    · rw [hr] at hnone
      cases hnone
    · exact hne (hr.trans hr'.symm)
  rcases eq_or_of_pairwise h hs ht with heq | hst | hts
  · exact heq
  · exact absurd hst (hnot hks hkt)
  · exact absurd hts (hnot hkt hks)

theorem Reduced.field {name field : String} {fields : List (String × Ty)} {t : Ty}
    (h : (Ty.struct name fields).Reduced) (ht : Entries.get? fields field = some t) :
    t.Reduced := by
  cases h with
  | struct reduced => exact reduced _ (Entries.mem_of_get? ht)

theorem Reduced.payload {name variant : String} {variants : List (String × Option Ty)} {t : Ty}
    (h : (Ty.enum name variants).Reduced) (ht : Entries.get? variants variant = some (some t)) :
    t.Reduced := by
  cases h with
  | enum reduced => exact reduced _ (Entries.mem_of_get? ht) t rfl

end TypedFlow.Ty
