import TypedFlow.Proofs.Expr.Leaves

/-!
# Reading compounds

An expression inside another one is read one level further in, in parentheses where its place needs
them, and the items of calls, records and matches one after the other.
-/
namespace TypedFlow
open Reader

namespace Expr

theorem down_eq_some {k j : Nat} : down k = some j ↔ k = j + 1 := by
  cases k with
  | zero => simp [down]
  | succ k => simp [down]

theorem nestedLevels_eq_some {inside : Nat → Option Nat} {k k' : Nat} :
    nestedLevels inside k = some k' ↔ k' = k ∧ ∃ j j', k = j + 1 ∧ inside j = some j' := by
  cases k with
  | zero => simp [nestedLevels, down]
  | succ k =>
    simp only [nestedLevels, down, Option.bind_some, Option.map_eq_some_iff]
    constructor
    · rintro ⟨j', hj', rfl⟩
      exact ⟨rfl, k, j', rfl, hj'⟩
    · rintro ⟨rfl, j, j', hj, hj'⟩
      obtain rfl : k = j := Nat.succ.inj hj
      exact ⟨j', hj', rfl⟩

section Operands
variable {e : Expr} (he : ReadsBack e) (levels : Nat) (context : ReaderContext) {k k' : Nat}
include he

/-- An expression inside another is read one level further in. -/
theorem ReadsBack.inner (hk : k ≤ levels) (hrecords : context.records = true ∨ e.showsRecord = false)
    (hleft : nestedLevels e.levelsLeft k = some k') :
    ReadsInner levels context k e.tokens e.shown := by
  obtain ⟨-, j, j', rfl, hj⟩ := nestedLevels_eq_some.1 hleft
  obtain ⟨l, rfl⟩ : ∃ l, levels = l + 1 := ⟨levels - 1, by omega⟩
  have hread := he l context j j' (by omega) hrecords hj 1 (by decide) (Nat.le_max_left 1 _)
    fun h => absurd h (by decide)
  exact fun following hfollows => hread.inner (by omega) hfollows

theorem ReadsBack.parenthesized (hk : k ≤ levels) (hleft : nestedLevels e.levelsLeft k = some k') :
    ReadAt levels context k k' (.symbol .openParen :: (e.tokens ++ [.symbol .closeParen])) e.shown
      6 := by
  obtain rfl : k' = k := (nestedLevels_eq_some.1 hleft).1
  refine readAt_primary (t := .symbol .openParen) hk rfl (by simp) fun following _ => ?_
  have hinner := he.inner levels { context with records := true } hk (.inl rfl) hleft
  rw [List.cons_append, List.append_assoc]
  exact gives_primary_parenthesized hinner following

/-- An operand is read at its place, in parentheses if it needs them. -/
theorem ReadsBack.placed {least : Nat} (h1 : 1 ≤ least) (h6 : least ≤ 6) (hk : k ≤ levels)
    (hrecords : context.records = true ∨ (least ≤ e.precedence → e.showsRecord = false))
    (hleft : placedLevels e.precedence least e.levelsLeft k = some k')
    (hminus : least = 6 → ¬ BeginsWithMinus (e.tokensAt 6)) :
    ReadAt levels context k k' (e.tokensAt least) e.shown least := by
  unfold tokensAt Expr.placed
  unfold placedLevels at hleft
  split
  · rename_i hlt
    rw [if_pos hlt] at hleft
    exact (he.parenthesized levels context hk hleft).lower hk (Nat.le_refl 6) h1 h6
  · rename_i hge
    rw [if_neg hge] at hleft
    have hbare : e.tokensAt least = e.tokens := if_neg hge
    refine he levels context k k' hk (hrecords.imp_right fun h => h (by omega)) hleft least h1
      (by omega) fun hsix => ?_
    subst hsix
    rw [← hbare]
    exact hminus rfl

end Operands

section Operators

theorem readsBack_field {target : Expr} (ht : ReadsBack target) {n : String} (hn : IsName n)
    (hminus : ¬ BeginsWithMinus (target.tokensAt 6)) : ReadsBack (.field target n) := by
  intro levels context k k' hk hrecords hleft q h1 hq _
  rw [levelsLeft] at hleft
  obtain ⟨j, hj, hj'⟩ := Option.bind_eq_some_iff.1 hleft
  obtain rfl := down_eq_some.1 hj'
  have hrecord : context.records = true ∨ (6 ≤ target.precedence → target.showsRecord = false) := by
    refine hrecords.imp_right fun h hle => ?_
    simpa [showsRecord, hle] using h
  have hread := (ht.placed levels context (by decide) (by decide) hk hrecord hj fun _ => hminus).field
    hn.not_keyword
  rw [tokens, shown]
  exact hread.lower hk (Nat.le_refl 6) h1 hq

theorem readsBack_negate {operand : Expr} (ho : ReadsBack operand)
    (hne : operand.tokensAt 5 ≠ []) (hnumber : ¬ BeginsWithNumber (operand.tokensAt 5)) :
    ReadsBack (.negate operand) := by
  intro levels context k k' hk hrecords hleft q h1 hq _
  rw [levelsLeft] at hleft
  obtain ⟨j, hj, hj'⟩ := Option.bind_eq_some_iff.1 hleft
  obtain rfl := down_eq_some.1 hj
  have hrecord : context.records = true ∨ (5 ≤ operand.precedence → operand.showsRecord = false) := by
    refine hrecords.imp_right fun h hle => ?_
    simpa [showsRecord, hle] using h
  have hread := (ho.placed levels context (by decide) (by decide) (by omega) hrecord hj'
    fun h => absurd h (by decide)).negate hne hnumber
  rw [tokens, shown]
  exact hread.lower hk (by decide) h1 hq

theorem readsBack_binary {op : BinaryOp} {left right : Expr} (hl : ReadsBack left)
    (hr : ReadsBack right) (hne : right.tokensAt (op.precedence + 1) ≠ [])
    (hsign : ¬ (op = .subtract ∧ EndsInRange (left.tokensAt 3) ∧
      BeginsWithNumber (right.tokensAt 4))) : ReadsBack (.binary op left right) := by
  intro levels context k k' hk hrecords hleft q h1 hq _
  have hprecedence : 1 ≤ op.precedence ∧ op.precedence ≤ 4 := by cases op <;> decide
  rw [levelsLeft] at hleft
  obtain ⟨j, hj, hright⟩ := Option.bind_eq_some_iff.1 hleft
  obtain ⟨i, hi, hi'⟩ := Option.bind_eq_some_iff.1 hj
  obtain rfl := down_eq_some.1 hi'
  have hrecord : context.records = true ∨ (op.precedence ≤ left.precedence → left.showsRecord = false) ∧
      (op.precedence + 1 ≤ right.precedence → right.showsRecord = false) := by
    refine hrecords.imp_right fun h => ?_
    rw [showsRecord, Bool.or_eq_false_iff] at h
    exact ⟨fun hle => by simpa [hle] using h.1, fun hlt => by simpa [Nat.lt_of_succ_le hlt] using h.2⟩
  have hleft' := hl.placed levels context hprecedence.1 (by omega) hk (hrecord.imp_right And.left) hi
    fun h => absurd h (by omega)
  have hle := hleft'.1
  have hright' := hr.placed levels context (Nat.le_add_left 1 _) (by omega)
    (by omega) (hrecord.imp_right And.right) hright fun h => absurd h (by omega)
  have hread := hleft'.binary hk hright' hne ?_
  · rw [tokens, shown]
    exact hread.lower hk (by omega) h1 (by rw [precedence] at hq; omega)
  · rintro ⟨rfl, h⟩
    exact hsign ⟨rfl, h⟩

end Operators

section Items
variable {α : Type} {item : Nat → Reader α} {close : Symbol} {list : List Token}
  {lists : List (List Token)} {value : α} {values : List α} {left left' : Nat → Option Nat}

/-- An item of a list is read one level further in. -/
def ReadItem (item : Nat → Reader α) (close : Symbol) (list : List Token) (value : α)
    (left : Nat → Option Nat) : Prop :=
  ∀ levels context k k', k ≤ levels → context.records = true → left k = some k' →
    k' = k ∧ GivesItem (item levels) context k close list value

def ReadItems (item : Nat → Reader α) (close : Symbol) (lists : List (List Token)) (values : List α)
    (left : Nat → Option Nat) : Prop :=
  ∀ levels context k k', k ≤ levels → context.records = true → left k = some k' →
    k' = k ∧ List.Forall₂ (GivesItem (item levels) context k close) lists values

theorem readItems_nil : ReadItems item close [] [] some := by
  intro levels context k k' _ _ hleft
  cases hleft
  exact ⟨rfl, .nil⟩

theorem ReadItem.cons (h : ReadItem item close list value left)
    (h' : ReadItems item close lists values left') :
    ReadItems item close (list :: lists) (value :: values) fun k => (left k).bind left' := by
  intro levels context k k' hk hrecords hleft
  obtain ⟨j, hj, hj'⟩ := Option.bind_eq_some_iff.1 hleft
  obtain ⟨rfl, hitem⟩ := h levels context k j hk hrecords hj
  obtain ⟨rfl, hitems⟩ := h' levels context _ k' hk hrecords hj'
  exact ⟨rfl, .cons hitem hitems⟩

variable {e : Expr} (he : ReadsBack e)
include he

theorem readItem_argument (hhead : ∃ t, e.tokens.head? = some t ∧ t.Begins) :
    ReadItem expressionAt .closeParen e.tokens e.shown (nestedLevels e.levelsLeft) := by
  intro levels context k k' hk hrecords hleft
  exact ⟨(nestedLevels_eq_some.1 hleft).1,
    givesItem_argument (he.inner levels context hk (.inl hrecords) hleft) hhead⟩

theorem readItem_field {n : String} (hn : IsName n) :
    ReadItem (fun levels => labelled (expressionAt levels) "field name") .closeBrace
      (.word n :: .symbol .colon :: e.tokens) (n, e.shown) (nestedLevels e.levelsLeft) := by
  intro levels context k k' hk hrecords hleft
  exact ⟨(nestedLevels_eq_some.1 hleft).1,
    givesItem_field hn.not_keyword (he.inner levels context hk (.inl hrecords) hleft)⟩

omit he

variable {body : Expr} (hbody : ReadsBack body) {binding : Option String}
  (hbinding : ∀ n ∈ binding, IsName n)
include hbody hbinding

theorem readItem_wildcard :
    ReadItem (fun levels => arm (expressionAt levels)) .closeBrace
      (armTokens [.word "_"] binding body.tokens) ⟨none, binding, body.shown⟩
      (nestedLevels body.levelsLeft) := by
  intro levels context k k' hk hrecords hleft
  exact ⟨(nestedLevels_eq_some.1 hleft).1, givesItem_wildcard (fun n hn => (hbinding n hn).not_keyword)
    (hbody.inner levels context hk (.inl hrecords) hleft)⟩

theorem readItem_arm {pattern : Expr} (hpattern : ReadsBack pattern)
    (hhead : ∃ t, pattern.tokens.head? = some t ∧ t.Begins) :
    ReadItem (fun levels => arm (expressionAt levels)) .closeBrace
      (armTokens pattern.tokens binding body.tokens) ⟨some pattern.shown, binding, body.shown⟩
      (fun k => (nestedLevels pattern.levelsLeft k).bind (nestedLevels body.levelsLeft)) := by
  intro levels context k k' hk hrecords hleft
  obtain ⟨j, hj, hj'⟩ := Option.bind_eq_some_iff.1 hleft
  obtain rfl : j = k := (nestedLevels_eq_some.1 hj).1
  exact ⟨(nestedLevels_eq_some.1 hj').1, givesItem_arm (fun n hn => (hbinding n hn).not_keyword)
    (hbody.inner levels context hk (.inl hrecords) hj')
    (hpattern.inner levels context hk (.inl hrecords) hj) hhead⟩

end Items

section Braces

theorem readsBack_call {function : String} (hf : IsFunctionName function) {args : List Expr}
    (h : ReadItems expressionAt .closeParen (tokensAll args) (shownAll args) (levelsAll args)) :
    ReadsBack (.call function args) := by
  have hcallee : Callee (functionTokens function) function := by
    rcases hf with hn | ⟨owner, member, ho, hm, rfl⟩
    · exact functionTokens_of_isName hn ▸ .name hn.not_keyword
    · exact functionTokens_pathName ho member ▸ .path ho.not_keyword hm.not_keyword
  obtain ⟨n, hn, -⟩ := hcallee.exists_head
  refine readsBack_primary (t := .word n) (by simp [tokens, List.head?_append, hn])
    (by simp) fun levels context k k' hk _ hleft => ?_
  rw [levelsLeft] at hleft
  obtain ⟨rfl, hitems⟩ := h levels { context with records := true } k k' hk rfl hleft
  refine ⟨rfl, fun following _ => ?_⟩
  rw [tokens, shown, List.append_assoc, List.cons_append, List.append_assoc]
  exact gives_primary_call (listed_intercalate _) hcallee hitems following

theorem readsBack_record {n : String} (hn : IsName n) {fields : List (String × Expr)}
    (h : ReadItems (fun levels => labelled (expressionAt levels) "field name") .closeBrace
      (tokensFields fields) (shownFields fields) (levelsFields fields)) :
    ReadsBack (.record n fields) := by
  refine readsBack_primary (t := .word n) (by simp [tokens]) (by simp) ?_
  intro levels context k k' hk hrecords hleft
  have hallowed : context.records = true := by simpa [showsRecord] using hrecords
  rw [levelsLeft] at hleft
  obtain ⟨rfl, hitems⟩ := h levels { context with records := true } k k' hk rfl hleft
  refine ⟨rfl, fun following _ => ?_⟩
  rw [tokens, shown, List.cons_append, List.cons_append, List.append_assoc]
  exact gives_primary_record (listed_intercalate _) hallowed hn.not_keyword hitems following

theorem readsBack_select {scrutinee : Expr} (hs : ReadsBack scrutinee)
    (hrecord : 1 ≤ scrutinee.precedence → scrutinee.showsRecord = false)
    {arms : List (MatchArm Expr)} (hne : shownArms arms ≠ [])
    (h : ReadItems (fun levels => arm (expressionAt levels)) .closeBrace (tokensArms arms)
      (shownArms arms) (levelsArms arms)) :
    ReadsBack (.select scrutinee arms) := by
  refine readsBack_primary (t := .word "match") (by simp [tokens]) (by simp) ?_
  intro levels context k k' hk _ hleft
  rw [levelsLeft] at hleft
  obtain ⟨j, hj, hj'⟩ := Option.bind_eq_some_iff.1 hleft
  obtain ⟨rfl, l, l', rfl, hl'⟩ := nestedLevels_eq_some.1 hj
  obtain ⟨rfl, hitems⟩ := h levels { context with records := true } _ k' hk rfl hj'
  refine ⟨rfl, fun following _ => ?_⟩
  obtain ⟨n, rfl⟩ : ∃ n, levels = n + 1 := ⟨levels - 1, by omega⟩
  have hplaced := hs.placed n { context with records := false } (by decide) (by decide) (by omega)
    (.inr hrecord) hl' fun h => absurd h (by decide)
  have hscrutinee : ReadsInner (n + 1) { context with records := false } (l + 1)
      (scrutinee.tokensAt 1) scrutinee.shown := fun _ hfollows => hplaced.inner (by omega) hfollows
  rw [tokens, shown, List.cons_append, List.append_assoc, List.cons_append, List.append_assoc]
  exact gives_primary_select (listed_intercalate _) hscrutinee hne hitems following

end Braces

end Expr
end TypedFlow
