import TypedFlow.Proofs.Effects
import TypedFlow.Proofs.Expr.Completeness
import TypedFlow.Proofs.Expr.Levels
import TypedFlow.Proofs.Expr.Soundness

/-!
# The reader accepts its grammar

A source text is read as an expression exactly if its tokens stand for the expression, as long as
it does not nest too deeply; and tokens never stand for two expressions.
-/
namespace TypedFlow
open Reader

section Places
variable {records : Bool} {place : Nat} {tokens : List Token} {e e' : Expr}

theorem Derives.one_le_place (h : Derives records place tokens e) : 1 ≤ place := by
  induction h with
  | tighter h1 _ _ => exact h1
  | @binary _ op => cases op <;> decide
  | _ => decide

theorem Derives.loosest (h : Derives records place tokens e) : Derives records 1 tokens e := by
  obtain ⟨n, rfl⟩ : ∃ n, place = n + 1 := ⟨place - 1, by have := h.one_le_place; omega⟩
  induction n with
  | zero => exact h
  | succ n ih => exact ih (.tighter (by omega) h)

end Places

namespace Expr
variable {records : Bool} {place : Nat} {tokens : List Token} {e e' : Expr}

/-- An expression and then the end of the text. -/
def wholeAt (levels : Nat) : Reader Expr := do
  let e ← expressionAt levels
  expectEnd
  return e

theorem ReadsWith.whole {k : Nat} (h : ReadsWith records k tokens e) (finish : Position) :
    Gives (wholeAt k) ⟨finish, records⟩ k tokens e k [] := by
  have hread := h k ⟨finish, records⟩ rfl (Nat.le_refl k) [] (follows_end records 1 tokens)
  rw [List.append_nil] at hread
  exact hread.bind (gives_expectEnd.bind (gives_pure e))

/-- The reader is a function of the tokens, so these stand for one expression at most. -/
theorem derives_unique {place' : Nat} (h : Derives records place tokens e)
    (h' : Derives records place' tokens e') : e = e' := by
  obtain ⟨need, hneed⟩ := (readable_of_derives h.loosest).inner
  obtain ⟨need', hneed'⟩ := (readable_of_derives h'.loosest).inner
  let k := max need need'
  have hinput : (tokens.map fun t => (⟨t, .start⟩ : PlacedToken)).map (·.token) = tokens := by
    simp [Function.comp_def]
  obtain ⟨_, -, hread⟩ := (hneed k (by omega)).whole .start _ hinput
  obtain ⟨_, -, hread'⟩ := (hneed' k (by omega)).whole .start _ hinput
  rw [hread] at hread'
  cases hread'
  rfl

theorem derives_of_takes_whole {levels : Nat} {context : ReaderContext} {rest : List Token}
    (h : Takes (wholeAt levels) context tokens e rest) : Derives context.records 1 tokens e := by
  obtain ⟨x, middle, hexpression, hend⟩ := h.of_bind
  obtain ⟨rfl, hpure⟩ := hend.of_expectEnd
  obtain ⟨rfl, -⟩ := takes_pure hpure
  obtain ⟨front, rfl, hderives, -⟩ := takes_expressionAt levels _ _ _ _ hexpression
  rwa [List.append_nil]

theorem agrees_wholeAt {levels levels' : Nat} (h : levels ≤ levels') :
    Agrees (wholeAt levels) (wholeAt levels') :=
  (agrees_expressionAt h).bind fun e => agrees_expectEnd.bind fun _ => agrees_pure e

section Sources
variable {source : String} {list : TokenList} (htokens : Source.tokenize source = .ok list)
include htokens

theorem parse_eq_whole : parse source =
    Prod.fst <$> wholeAt maxNesting ⟨list.finish, true⟩ ⟨list.tokens, maxNesting⟩ := by
  unfold parse Reader.run
  rw [htokens]
  rfl

theorem derives_of_parse (h : parse source = .ok e) :
    Derives true 1 (list.tokens.map (·.token)) e := by
  rw [parse_eq_whole htokens] at h
  cases hrun : wholeAt maxNesting ⟨list.finish, true⟩ ⟨list.tokens, maxNesting⟩ with
  | error error =>
    rw [hrun] at h
    cases h
  | ok result =>
    rw [hrun] at h
    cases h
    exact derives_of_takes_whole ⟨list.tokens, _, maxNesting, _, rfl, rfl, hrun⟩

/-- With enough levels the tokens are read; with the usual number, the same happens or no level is
left. -/
theorem parse_of_derives (h : Derives true 1 (list.tokens.map (·.token)) e) :
    parse source = .ok e ∨ ∃ position, parse source = .error ⟨position, .nestedTooDeep⟩ := by
  obtain ⟨need, hneed⟩ := (readable_of_derives h).inner
  let k := max need maxNesting
  obtain ⟨_, -, hread⟩ := (hneed k (by omega)).whole list.finish list.tokens rfl
  have hk : maxNesting ≤ k := Nat.le_max_right need maxNesting
  have hagrees := agrees_wholeAt hk ⟨list.finish, true⟩ list.tokens maxNesting k hk
  rw [hread] at hagrees
  rw [parse_eq_whole htokens]
  generalize wholeAt maxNesting ⟨list.finish, true⟩ ⟨list.tokens, maxNesting⟩ = outcome at hagrees
  cases hagrees with
  | tooDeep position => exact .inr ⟨position, rfl⟩
  | gives => exact .inl rfl

/-- What is read is what the grammar says, for every text that does not nest too deeply. -/
theorem parse_accepts_grammar
    (hnesting : ∀ position, parse source ≠ .error ⟨position, .nestedTooDeep⟩) :
    (∀ e, parse source = .ok e ↔ Derives true 1 (list.tokens.map (·.token)) e) ∧
      ∀ records place place' tokens e e', Derives records place tokens e →
        Derives records place' tokens e' → e = e' := by
  refine ⟨fun e => ⟨derives_of_parse htokens, fun h => ?_⟩, fun _ _ _ _ _ _ => derives_unique⟩
  rcases parse_of_derives htokens h with hok | ⟨position, herror⟩
  · exact hok
  · exact absurd herror (hnesting position)

end Sources

/-- A brace behind the scrutinee begins the arms, and a minus directly behind a range its end. -/
theorem parse_accepts_select : ∃ e, Derives true 1
    [.word "match", .word "a", .symbol .openBrace, .number 0, .range ⟨true, true⟩, .symbol .minus,
      .number 1, .symbol .arrow, .word "b", .symbol .dot, .word "c", .symbol .comma, .word "_",
      .word "as", .word "d", .symbol .arrow, .word "f", .symbol .openParen, .word "d",
      .symbol .comma, .symbol .closeParen, .symbol .closeBrace] e ∧
    (e == .select (.name "a")
      [⟨some (.range ⟨some 0, some (-1), true, true⟩), none, .field (.name "b") "c"⟩,
        ⟨none, some "d", .call "f" [.name "d"]⟩]) = true := by
  let source := "match a { 0.. -1 => b.c, _ as d => f(d,) }"
  let list := (Source.tokenize source).toOption.getD ⟨[], .start⟩
  let e := (parse source).toOption.getD default
  have htokens : Source.tokenize source = .ok list := eq_ok_of_isOk (by decide +kernel) _
  have hparse : parse source = .ok e := eq_ok_of_isOk (by decide +kernel) _
  have hnesting : ∀ position, parse source ≠ .error ⟨position, .nestedTooDeep⟩ := fun _ h => by
    rw [hparse] at h
    cases h
  have hderives := ((parse_accepts_grammar htokens hnesting).1 e).1 hparse
  have hlist : list.tokens.map (·.token) =
      [.word "match", .word "a", .symbol .openBrace, .number 0, .range ⟨true, true⟩, .symbol .minus,
        .number 1, .symbol .arrow, .word "b", .symbol .dot, .word "c", .symbol .comma, .word "_",
        .word "as", .word "d", .symbol .arrow, .word "f", .symbol .openParen, .word "d",
        .symbol .comma, .symbol .closeParen, .symbol .closeBrace] := by decide +kernel
  exact ⟨e, hlist ▸ hderives, by decide +kernel⟩

end Expr
end TypedFlow
