import TypedFlow.Source.Reader

/-!
# Words

What scanning says of words: a word begins like one and goes on like one, so no separator of paths
is in it. A name is a word that is not a keyword.
-/
namespace TypedFlow

/-- A text that is a word of the language. -/
def IsWord (s : String) : Prop :=
  ∃ c cs, s = String.ofList (c :: cs) ∧ Source.isWordStart c = true ∧
    ∀ x ∈ cs, Source.isWordPart x = true

/-- A word that can name something. -/
structure IsName (s : String) : Prop where
  isWord : IsWord s
  not_keyword : s ∉ Reader.keywords

theorem isWord_ofList {c : Char} {cs : List Char}
    (h : (Source.isWordStart c && cs.all Source.isWordPart) = true) :
    IsWord (String.ofList (c :: cs)) := by
  obtain ⟨hc, hcs⟩ := Bool.and_eq_true_iff.1 h
  exact ⟨c, cs, rfl, hc, List.all_eq_true.1 hcs⟩

/-- The words among the tokens of a text are words. -/
def Token.Spelled : Token → Prop
  | .word w => IsWord w
  | _ => True

namespace Source

theorem isWordPart_of_isWordStart {c : Char} (h : isWordStart c = true) : isWordPart c = true := by
  simp only [isWordStart, Bool.or_eq_true] at h
  simp only [isWordPart, Text.isWordChar, Bool.or_eq_true]
  exact h.imp_left .inl

theorem isWordPart_colon : isWordPart ':' = false := by decide

theorem spelled_markToken {c : Char} {cs : List Char} {mark : Token × Nat}
    (h : markToken? c cs = some mark) : mark.1.Spelled := by
  unfold markToken? at h
  split at h
  all_goals cases h
  all_goals exact trivial

theorem spelled_lexeme {c : Char} {cs : List Char} {found : Token × Nat}
    (h : lexeme? c cs = .ok found) : found.1.Spelled := by
  unfold lexeme? at h
  split at h
  · cases h
    trivial
  · split at h
    · cases hbody : textBody 1 cs with
      | error fault =>
        rw [hbody] at h
        cases h
      | ok body =>
        rw [hbody] at h
        cases h
        trivial
    · split at h
      · rename_i hstart
        cases h
        exact ⟨c, _, rfl, hstart, List.all_eq_true.1 List.all_takeWhile⟩
      · split at h
        · rename_i hmark
          cases h
          exact spelled_markToken hmark
        · cases h

theorem spelled_tokensFrom {p : Position} {cs : List Char} {list : TokenList}
    (h : tokensFrom p cs = .ok list) : ∀ t ∈ list.tokens, t.token.Spelled := by
  induction hn : cs.length using Nat.strongRecOn generalizing p cs list with
  | ind n ih =>
    subst hn
    have hle := length_skipTrivia_le false p cs
    unfold tokensFrom at h
    split at h
    · cases h
      exact fun t ht => absurd ht List.not_mem_nil
    · rename_i start c rest hskip
      rw [hskip, List.length_cons] at hle
      split at h
      · cases h
      · rename_i token more hlexeme
        cases hrest : tokensFrom ((start.step c).after (rest.take more)) (rest.drop more) with
        | error e =>
          rw [hrest] at h
          cases h
        | ok following =>
          rw [hrest] at h
          cases h
          have hlt : (rest.drop more).length < cs.length := by
            rw [List.length_drop]
            omega
          intro t ht
          rcases List.mem_cons.1 ht with rfl | ht
          · exact spelled_lexeme hlexeme
          · exact ih _ hlt hrest rfl t ht

theorem spelled_tokenize {source : String} {list : TokenList} (h : tokenize source = .ok list) :
    ∀ t ∈ list.tokens, t.token.Spelled :=
  spelled_tokensFrom h

end Source

theorem IsWord.not_colon {s : String} (h : IsWord s) : ':' ∉ s.toList := by
  obtain ⟨c, cs, rfl, hc, hcs⟩ := h
  rw [String.toList_ofList]
  intro hmem
  have hpart : Source.isWordPart ':' = true := by
    rcases List.mem_cons.1 hmem with rfl | hmem
    · exact Source.isWordPart_of_isWordStart hc
    · exact hcs _ hmem
  rw [Source.isWordPart_colon] at hpart
  cases hpart

end TypedFlow
