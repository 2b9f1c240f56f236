import TypedFlow.Proofs.Expr.Compounds

/-!
# Reading what is printed

The text of a legible expression is read back as the expression, but for the signs of zeros. Where
the text of an expression is not legible, it may show another one.
-/
namespace TypedFlow
open Reader

namespace Expr

theorem shownArms_ne_nil {arms : List (MatchArm Expr)} (h : arms ≠ []) : shownArms arms ≠ [] := by
  match arms with
  | [] => exact absurd rfl h
  | ⟨none, _, _⟩ :: _ => simp [shownArms]
  | ⟨some _, _, _⟩ :: _ => simp [shownArms]

mutual

/-- The tokens of a legible expression are read as what they show. -/
theorem readsBack : (e : Expr) → e.WellFormed → e.Legible → ReadsBack e
  | .number _, _, hl => readsBack_number hl
  | .string s, _, _ => readsBack_string s
  | .range _, hw, hl => readsBack_range hw hl
  | .name _, hw, _ => readsBack_name hw
  | .path _ _, hw, _ => readsBack_path hw.1 hw.2
  | .field target _, hw, hl => readsBack_field (readsBack target hw.1 hl.1) hw.2 hl.2
  | .call _ args, hw, hl => readsBack_call hw.1 (readItems_arguments args hw.2 hl)
  | .record _ fields, hw, hl => readsBack_record hw.1 (readItems_fields fields hw.2 hl)
  | .binary _ left right, hw, hl =>
    readsBack_binary (readsBack left hw.1 hl.1) (readsBack right hw.2 hl.2.1)
      (tokensAt_ne_nil hw.2 hl.2.1 _) hl.2.2
  | .negate operand, hw, hl =>
    readsBack_negate (readsBack operand hw hl.1) (tokensAt_ne_nil (e := operand) hw hl.1 _) hl.2
  | .select scrutinee arms, hw, hl =>
    readsBack_select (readsBack scrutinee hw.1 hl.1) hl.2.1 (shownArms_ne_nil hw.2.1)
      (readItems_arms arms hw.2.2 hl.2.2)

theorem readItems_arguments : (args : List Expr) → WellFormedAll args → LegibleAll args →
    ReadItems expressionAt .closeParen (tokensAll args) (shownAll args) (levelsAll args)
  | [], _, _ => readItems_nil
  | e :: exprs, hw, hl =>
    (readItem_argument (readsBack e hw.1 hl.1) (exists_head e hw.1 hl.1)).cons
      (readItems_arguments exprs hw.2 hl.2)

theorem readItems_fields : (fields : List (String × Expr)) → WellFormedFields fields →
    LegibleFields fields →
    ReadItems (fun levels => labelled (expressionAt levels) "field name") .closeBrace
      (tokensFields fields) (shownFields fields) (levelsFields fields)
  | [], _, _ => readItems_nil
  | (_, e) :: fields, hw, hl =>
    (readItem_field (readsBack e hw.2.1 hl.1) hw.1).cons (readItems_fields fields hw.2.2 hl.2)

theorem readItems_arms : (arms : List (MatchArm Expr)) → WellFormedArms arms → LegibleArms arms →
    ReadItems (fun levels => arm (expressionAt levels)) .closeBrace (tokensArms arms)
      (shownArms arms) (levelsArms arms)
  | [], _, _ => readItems_nil
  | ⟨none, _, body⟩ :: arms, hw, hl =>
    (readItem_wildcard (readsBack body hw.2.1 hl.1) hw.1).cons (readItems_arms arms hw.2.2 hl.2)
  | ⟨some pattern, _, body⟩ :: arms, hw, hl =>
    (readItem_arm (readsBack body hw.2.2.1 hl.2.1) hw.2.1 (readsBack pattern hw.1 hl.1)
      (exists_head pattern hw.1 hl.1)).cons (readItems_arms arms hw.2.2.2 hl.2.2)

end

/-- A source text with the tokens of a legible expression is read as what they show. -/
theorem parse_of_scans {source : String} {e : Expr} (hscans : Source.Scans source.toList e.tokens)
    (hw : e.WellFormed) (hl : e.Legible) (hnesting : e.WithinNesting) :
    parse source = .ok e.shown := by
  obtain ⟨k', hk'⟩ := Option.isSome_iff_exists.1 hnesting
  have hgives : ∀ finish, Gives (do
      let e ← expression
      expectEnd
      return e) ⟨finish, true⟩ maxNesting e.tokens e.shown maxNesting [] := by
    intro finish
    have hread := (readsBack e hw hl).inner maxNesting ⟨finish, true⟩ (Nat.le_refl _) (.inl rfl) hk' []
      (follows_end true 1 e.tokens)
    rw [List.append_nil] at hread
    exact hread.bind (gives_expectEnd.bind (gives_pure _))
  exact Gives.run hscans hgives

/-- The text of a legible expression is read as what it shows. -/
theorem parse_text {e : Expr} (hw : e.WellFormed) (hl : e.Legible) (hnesting : e.WithinNesting) :
    parse e.text = .ok e.shown :=
  parse_of_scans (shows_text e hw hl).scans hw hl hnesting

/-- Printing undoes parsing where the text is legible and nests no deeper than is read. -/
theorem parse_text_of_parse {source : String} {e : Expr} (h : parse source = .ok e)
    (hl : e.Legible) (hnesting : e.WithinNesting) :
    ∃ e', parse e.text = .ok e' ∧ (e' == e) = true :=
  ⟨e.shown, parse_text (wellFormed_of_parse h) hl hnesting, shown_equal e hl⟩

section Misread

/-- A leaf nests in no other expression. -/
theorem withinNesting_leaf {e : Expr} (h : e.isLeaf = true) : e.WithinNesting := by
  simp [WithinNesting, nestedLevels, down, maxNesting, levelsLeft_leaf h]

variable {y : Magnitude} (hy : y.units ≠ 0)
include hy

/-- A range without an upper end takes a minus and the number after it for its end, so the text of a
difference shows a range. -/
theorem parse_text_range_minus (x : Magnitude) :
    parse (text (.binary .subtract (.range ⟨some (.finite false x), none, true, true⟩)
      (.number (.finite false y)))) =
        .ok (.range ⟨some (.finite false x), some (.finite true y), true, true⟩) := by
  let unbounded : RangeLiteral := ⟨some (.finite false x), none, true, true⟩
  let bounded : RangeLiteral := ⟨some (.finite false x), some (.finite true y), true, true⟩
  have hsign : (y.units != 0) = true := bne_iff_ne.2 hy
  have hwell : unbounded.WellFormed ∧ bounded.WellFormed := by
    simp [unbounded, bounded, RangeLiteral.WellFormed]
  have hfinite : unbounded.Finite ∧ bounded.Finite := by
    simp [unbounded, bounded, RangeLiteral.Finite, Number.isFinite]
  have htokens : tokens (.binary .subtract (.range unbounded) (.number (.finite false y))) =
      tokens (.range bounded) := by
    simp [unbounded, bounded, tokens, placed, precedence, BinaryOp.precedence, BinaryOp.mark,
      RangeLiteral.tokens, RangeLiteral.mark, Number.tokens, Number.showsSign, hsign]
  have hshows : Shows (text (.binary .subtract (.range unbounded) (.number (.finite false y))))
      (tokens (.range bounded)) :=
    htokens ▸ shows_binary .subtract (shows_range hwell.1 hfinite.1) (shows_display rfl)
  have hread := parse_of_scans hshows.scans hwell.2 hfinite.2 (withinNesting_leaf rfl)
  simpa [unbounded, bounded, shown, RangeLiteral.shown, Number.shown, Number.showsSign, hsign]
    using hread

/-- A sign before a number belongs to the number, so the text of a negation shows a number. -/
theorem parse_text_minus_number :
    parse (text (.negate (.number (.finite false y)))) = .ok (.number (.finite true y)) := by
  have hsign : (y.units != 0) = true := bne_iff_ne.2 hy
  have htokens : tokens (.negate (.number (.finite false y))) = tokens (.number (.finite true y)) := by
    simp [tokens, placed, precedence, Number.tokens, Number.showsSign, hsign]
  have hshows : Shows (text (.negate (.number (.finite false y))))
      (tokens (.number (.finite true y))) :=
    htokens ▸ shows_negate (shows_display rfl)
  have hread := parse_of_scans hshows.scans trivial rfl (withinNesting_leaf rfl)
  simpa [shown, Number.shown, Number.showsSign, hsign] using hread

end Misread

end Expr
end TypedFlow
