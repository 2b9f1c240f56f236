import TypedFlow.Proofs.Expr.Phrases

/-!
# Reading leaves

Numbers, quoted texts, ranges, names and paths are read at once, or, if they begin with a sign,
where a sign may stand.
-/
namespace TypedFlow
open Reader

namespace Expr

/-- Wherever its text may stand, the tokens of an expression are read as what they show. -/
def ReadsBack (e : Expr) : Prop :=
  ∀ levels context k k', k ≤ levels → (context.records = true ∨ e.showsRecord = false) →
    e.levelsLeft k = some k' → ∀ q, 1 ≤ q → q ≤ max 1 e.precedence →
      (q = 6 → ¬ BeginsWithMinus e.tokens) → ReadAt levels context k k' e.tokens e.shown q

theorem precedence_le (e : Expr) : e.precedence ≤ 6 := by
  cases e with
  | binary op left right => cases op <;> simp [precedence, BinaryOp.precedence]
  | _ => simp [precedence]

section Leaves

/-- An expression that is read at once gives back all levels. -/
theorem readsBack_primary {e : Expr} {t : Token} (ht : e.tokens.head? = some t)
    (hminus : t ≠ .symbol .minus)
    (h : ∀ levels context k k', k ≤ levels → (context.records = true ∨ e.showsRecord = false) →
      e.levelsLeft k = some k' → k' = k ∧ ∀ following, Follows context.records 7 e.tokens following →
        Gives (primary (expressionAt levels)) context k (e.tokens ++ following) e.shown k following) :
    ReadsBack e := by
  intro levels context k k' hk hrecords hleft q h1 hq _
  obtain ⟨rfl, hgives⟩ := h levels context k k' hk hrecords hleft
  have hsix := e.precedence_le
  exact (readAt_primary hk ht hminus hgives).lower hk (Nat.le_refl 6) h1 (by omega)

theorem readsBack_leaf {e : Expr} (hleaf : e.isLeaf = true) {t : Token}
    (ht : e.tokens.head? = some t) (hminus : t ≠ .symbol .minus)
    (h : ∀ levels context k following, Follows context.records 7 e.tokens following →
      Gives (primary (expressionAt levels)) context k (e.tokens ++ following) e.shown k following) :
    ReadsBack e := by
  refine readsBack_primary ht hminus fun levels context k k' _ _ hleft => ?_
  rw [levelsLeft_leaf hleaf] at hleft
  cases hleft
  exact ⟨rfl, h levels context k⟩

/-- A number, or a range that begins with one, is read where a sign may stand, and where none may
stand if it has none. -/
theorem readsBack_ofNumber {e : Expr} (hleaf : e.isLeaf = true) (hprecedence : e.precedence = 6)
    {a : Number} (ha : a.isFinite = true) {rest : List Token} (htokens : e.tokens = a.tokens ++ rest)
    (h : NumberOrRange a.shown rest e.shown) : ReadsBack e := by
  cases a with
  | nan => cases ha
  | infinite negative => cases ha
  | finite negative m =>
    rw [Number.tokens] at htokens
    rw [Number.shown] at h
    cases hsign : Number.showsSign (.finite negative m) with
    | false =>
      rw [hsign] at htokens h
      refine readsBack_leaf hleaf (t := .number (.finite false m)) (by simp [htokens]) (by simp) ?_
      intro levels context k following hfollows
      rw [htokens] at hfollows ⊢
      exact gives_primary_number h hfollows
    | true =>
      rw [hsign] at htokens h
      intro levels context k k' hk _ hleft q h1 hq hsix
      rw [levelsLeft_leaf hleaf] at hleft
      cases hleft
      rw [htokens]
      refine (readAt_negative h).lower hk (by decide) h1 ?_
      rcases Nat.lt_or_ge q 6 with hlt | hge
      · omega
      · exact absurd (by simp [BeginsWithMinus, htokens]) (hsix (by omega))

theorem readsBack_number {a : Number} (ha : a.isFinite = true) : ReadsBack (.number a) :=
  readsBack_ofNumber rfl rfl ha (by rw [tokens, List.append_nil]) (by
    rw [shown]
    exact .number)

theorem readsBack_string (s : String) : ReadsBack (.string s) := by
  refine readsBack_leaf (t := .text s) rfl (by simp [tokens]) (by simp) ?_
  intro levels context k following hfollows
  rw [tokens, shown]
  exact gives_primary_string s

/-- The end of a range is read as it is shown. -/
theorem upperEnd_shown {max : Option Number} (h : ∀ a ∈ max, a.isFinite = true) :
    UpperEnd (max.elim [] Number.tokens) (max.map Number.shown) := by
  cases max with
  | none => exact .none
  | some a =>
    cases a with
    | nan => cases h _ rfl
    | infinite negative => cases h _ rfl
    | finite negative m =>
      rw [Option.elim_some, Option.map_some, Number.tokens, Number.shown]
      cases Number.showsSign (.finite negative m) with
      | false => exact .number _
      | true => exact .negative (.finite false m)

theorem readsBack_range {r : RangeLiteral} (hwell : r.WellFormed) (hfinite : r.Finite) :
    ReadsBack (.range r) := by
  obtain ⟨min, max, minInclusive, maxInclusive⟩ := r
  obtain ⟨hmin, hmax⟩ := hwell
  have hrange : ∀ min', RangeFrom min'
      (.range ⟨minInclusive, maxInclusive⟩ :: max.elim [] Number.tokens)
      (.range ⟨min', max.map Number.shown, minInclusive, maxInclusive⟩) := fun _ =>
    .mk (upperEnd_shown hfinite.2) fun hnone => hmax (Option.map_eq_none_iff.1 hnone)
  cases min with
  | none =>
    obtain rfl : minInclusive = true := hmin rfl
    refine readsBack_leaf (t := .range ⟨true, maxInclusive⟩) rfl
      (by simp [tokens, RangeLiteral.tokens, RangeLiteral.mark]) (by simp) ?_
    intro levels context k following hfollows
    exact gives_primary_range rfl (hrange none) hfollows
  | some a =>
    refine readsBack_ofNumber rfl rfl (hfinite.1 a rfl) ?_ (.range (hrange (some a.shown)))
    rw [tokens]
    rfl

theorem readsBack_name {n : String} (hn : IsName n) : ReadsBack (.name n) := by
  refine readsBack_leaf (t := .word n) rfl (by simp [tokens]) (by simp) ?_
  intro levels context k following hfollows
  rw [tokens] at hfollows ⊢
  exact gives_primary_name hn.not_keyword hfollows

theorem readsBack_path {owner member : String} (ho : IsName owner) (hm : IsName member) :
    ReadsBack (.path owner member) := by
  refine readsBack_leaf (t := .word owner) rfl (by simp [tokens, pathTokens]) (by simp) ?_
  intro levels context k following hfollows
  rw [tokens] at hfollows ⊢
  exact gives_primary_path ho.not_keyword hm.not_keyword hfollows

end Leaves

end Expr
end TypedFlow
