import Mathlib.Data.List.Basic
import TypedFlow.Proofs.Source.Extending
import TypedFlow.Proofs.Source.Layout

/-!
# One text behind another

Where a text ends in a closing symbol and not inside of a comment, the tokens of another one behind
it are those that this has alone, moved by what stands before them.
-/
namespace TypedFlow

def TokenList.move (f : Position → Position) (list : TokenList) : TokenList :=
  ⟨list.tokens.map (·.move f), f list.finish⟩

namespace Source
open Reader (Closing closing)

section Moving
variable {f : Position → Position} {p : Position}

/-- Positions are moved so that the lines and columns behind them go on in the same way. -/
def Moves (f : Position → Position) : Prop :=
  ∀ p c, 1 ≤ p.line → f (p.step c) = (f p).step c

theorem line_step (hp : 1 ≤ p.line) (c : Char) : 1 ≤ (p.step c).line := by
  unfold Position.step
  split
  · exact Nat.le_add_left 1 _
  · exact hp

theorem line_after (hp : 1 ≤ p.line) (cs : List Char) : 1 ≤ (p.after cs).line := by
  induction cs generalizing p with
  | nil => exact hp
  | cons c cs ih => exact ih (line_step hp c)

theorem Moves.after (hf : Moves f) (hp : 1 ≤ p.line) (cs : List Char) :
    f (p.after cs) = (f p).after cs := by
  induction cs generalizing p with
  | nil => rfl
  | cons c cs ih =>
    change f ((p.step c).after cs) = ((f p).step c).after cs
    rw [ih (line_step hp c), hf p c hp]

theorem Moves.skipTrivia (hf : Moves f) (hp : 1 ≤ p.line) (inComment : Bool) (cs : List Char) :
    1 ≤ (skipTrivia inComment p cs).1.line ∧ skipTrivia inComment (f p) cs =
      (f (skipTrivia inComment p cs).1, (skipTrivia inComment p cs).2) := by
  induction cs generalizing inComment p with
  | nil => exact ⟨hp, rfl⟩
  | cons c cs ih =>
    unfold Source.skipTrivia
    rw [← hf p c hp]
    have hnext := fun inside => ih (line_step hp c) inside
    split
    · exact hnext _
    · split
      · exact hnext _
      · split
        · exact hnext _
        · exact ⟨hp, rfl⟩

/-- A text somewhere else has the same tokens, all moved. -/
theorem Moves.tokensFrom (hf : Moves f) (hp : 1 ≤ p.line) (cs : List Char) :
    tokensFrom (f p) cs = ((tokensFrom p cs).map (·.move f)).mapError (·.move f) := by
  induction hn : cs.length using Nat.strongRecOn generalizing p cs with
  | ind n ih =>
    subst hn
    obtain ⟨hline, hskip⟩ := hf.skipTrivia hp false cs
    have hle := length_skipTrivia_le false p cs
    rw [tokensFrom_eq, tokensFrom_eq, hskip]
    generalize Source.skipTrivia false p cs = skipped at hline hle ⊢
    obtain ⟨start, rest⟩ := skipped
    cases rest with
    | nil => rfl
    | cons c rest =>
      dsimp only at hline hle ⊢
      rw [tokensAt, tokensAt]
      cases lexeme? c rest with
      | error fault =>
        dsimp only
        rw [← hf.after hline]
        rfl
      | ok found =>
        obtain ⟨token, more⟩ := found
        have hlt : (rest.drop more).length < cs.length := by
          rw [List.length_drop]
          rw [List.length_cons] at hle
          omega
        dsimp only
        rw [← hf start c hline, ← hf.after (line_step hline c),
          ih _ hlt (line_after (line_step hline c) _) _ rfl]
        cases Source.tokensFrom ((start.step c).after (rest.take more)) (rest.drop more) <;> rfl

/-- Where a position gets to when this comes before the text. -/
def behind (before : List Char) (p : Position) : Position :=
  ⟨before.count '\n' + p.line,
    if p.line ≤ 1 then (before.reverse.takeWhile (· != '\n')).length + p.column else p.column⟩

theorem behind_start (before : List Char) : behind before .start = place before := rfl

theorem moves_behind (before : List Char) : Moves (behind before) := by
  intro p c hp
  by_cases hc : c = '\n'
  · have hline : ¬ p.line + 1 ≤ 1 := by omega
    simp [behind, Position.step, hc, hline, Nat.add_assoc]
  · simp only [behind, Position.step, if_neg hc]
    split <;> simp [Nat.add_assoc]

theorem behind_newline (before : List Char) (p : Position) :
    behind (before ++ ['\n']) p = ⟨p.line + (before.count '\n' + 1), p.column⟩ := by
  simp [behind, Nat.add_comm]

end Moving

section Seam
variable {before rest more text lexeme gap : List Char} {token : Token}

theorem fractionDigits_eq_nil {c : Char} (hc : c ≠ '.') (cs : List Char) :
    fractionDigits (c :: cs) = [] := by
  unfold fractionDigits
  split
  · rename_i h
    exact absurd (List.cons.inj h).1 hc
  · rfl

theorem fractionDigits_append_eq_nil (hrest : rest ≠ []) (hpoint : rest ≠ ['.']) :
    fractionDigits (rest ++ more) = [] ↔ fractionDigits rest = [] := by
  match rest with
  | [] => exact absurd rfl hrest
  | [c] =>
    have hc : c ≠ '.' := fun h => hpoint (h ▸ rfl)
    rw [List.singleton_append, fractionDigits_eq_nil hc, fractionDigits_eq_nil hc]
  | c :: d :: ds =>
    by_cases hc : c = '.'
    · subst hc
      simp only [fractionDigits, List.cons_append, List.takeWhile_cons]
      split <;> simp
    · rw [List.cons_append, fractionDigits_eq_nil hc, fractionDigits_eq_nil hc]

/-- A lexeme stays one where more comes behind the text, unless this ends with it or a point. -/
theorem Lexeme.append (h : Lexeme rest lexeme token) (hrest : rest ≠ []) (hpoint : rest ≠ ['.'])
    (more : List Char) : Lexeme (rest ++ more) lexeme token := by
  have hhead : (rest ++ more).head? = rest.head? := by
    obtain ⟨c, cs, rfl⟩ := List.exists_cons_of_ne_nil hrest
    rfl
  cases h with
  | word hw hnext => exact .word hw (hhead ▸ hnext)
  | number hnext =>
    exact .number ⟨hhead ▸ hnext.digit, fun hfraction =>
      (fractionDigits_append_eq_nil hrest hpoint).2 (hnext.point hfraction)⟩
  | text hquoted => exact .text hquoted
  | symbol hnext => exact .symbol (hhead ▸ hnext)
  | range hnext => exact .range (hhead ▸ hnext)

/-- It stays one where the text ends earlier. -/
theorem Lexeme.of_append (h : Lexeme (rest ++ more) lexeme token) : Lexeme rest lexeme token := by
  have hhead : ∀ c ∈ rest.head?, (rest ++ more).head? = some c := by
    intro c hc
    rw [List.head?_append, hc]
    rfl
  have hne : ∀ c, (rest ++ more).head? ≠ some c → rest.head? ≠ some c :=
    fun c hc heq => hc (hhead c heq)
  cases h with
  | word hw hnext => exact .word hw fun c hc => hnext c (hhead c hc)
  | @number d hnext =>
    refine .number ⟨fun c hc => hnext.digit c (hhead c hc), fun hfraction => ?_⟩
    by_cases hrest : rest = []
    · rw [hrest]
      rfl
    · by_cases hpoint : rest = ['.']
      · rw [hpoint]
        rfl
      · exact (fractionDigits_append_eq_nil hrest hpoint).1 (hnext.point hfraction)
  | text hquoted => exact .text hquoted
  | symbol hnext => exact .symbol fun c hc => hne c (hnext c hc)
  | range hnext => exact .range fun hmax => hne '<' (hnext hmax)

/-- A closing symbol is a lexeme whatever comes behind it. -/
theorem Lexeme.closing {s : Symbol} (h : Lexeme rest lexeme (.symbol s)) (hs : s ∈ closing)
    (more : List Char) : Lexeme more lexeme (.symbol s) := by
  cases h
  refine .symbol fun c hc => ?_
  simp only [Reader.closing, List.mem_cons, List.not_mem_nil, or_false] at hs
  rcases hs with rfl | rfl | rfl <;> cases hc

theorem Lexeme.ne_nil (h : Lexeme rest lexeme token) : lexeme ≠ [] := by
  obtain ⟨c, taken, rfl, -⟩ := h.scanned
  exact List.cons_ne_nil c taken

/-- Trivia depend on what comes next only by its first character. -/
theorem Trivia.congr (h : Trivia rest gap) (hhead : rest.head? = more.head?) : Trivia more gap := by
  induction h with
  | nil => exact .nil
  | blank hc _ ih => exact .blank hc ih
  | comment hcomment hnewline _ ih =>
    rw [List.head?_append, hhead, ← List.head?_append] at hnewline
    exact .comment hcomment hnewline ih

/-- The text ends inside of a comment. -/
def EndsInComment (text : List Char) : Prop :=
  ∃ front comment list, text = front ++ comment ∧ Comment comment ∧
    tokensFrom .start front = .ok list

/-- Behind `before` the text ends inside of a comment only where `rest` ends it. -/
def Parted (before text rest : List Char) : Prop :=
  ∀ front comment list, text = front ++ comment → Comment comment →
    tokensFrom (place before) front = .ok list → ∀ c ∈ rest.head?, c = '\n'

/-- Trivia at the end of a text are trivia before more of it. -/
theorem Trivia.parted (h : Trivia [] gap) (hparted : Parted before gap rest) : Trivia rest gap := by
  induction h generalizing before with
  | nil => exact .nil
  | @blank c gap hc _ ih =>
    have hrest : Parted (before ++ [c]) gap rest := by
      intro front comment list htext hcomment hlist
      refine hparted (c :: front) comment list (congrArg (c :: ·) htext) hcomment ?_
      rw [← hlist, place_snoc]
      exact tokensFrom_congr (skipTrivia_blank hc _ _)
    exact .blank hc (ih hrest)
  | @comment comment gap hcomment hnewline _ ih =>
    rw [List.append_nil] at hnewline
    -- The comment is the last thing in the text, or it is followed by a newline.
    have hnext : ∀ c ∈ (gap ++ rest).head?, c = '\n' := by
      cases gap with
      | nil =>
        exact hparted [] comment ⟨[], place before⟩ (List.append_nil comment) hcomment
          (tokensFrom_eq _ _)
      | cons c gap => exact hnewline
    have hrest : Parted (before ++ comment) gap rest := by
      rintro front last list rfl hlast hlist
      have hfront : ∀ c ∈ front.head?, c = '\n' := by
        intro c hc
        apply hnewline
        rw [List.head?_append, hc]
        rfl
      refine hparted (comment ++ front) last list (List.append_assoc _ _ _).symm hlast ?_
      rw [← hlist, ← after_place]
      exact tokensFrom_congr (hcomment.skip hfront _)
    exact .comment hcomment hnext (ih hrest)

/-- A layout is the only one of its text. -/
theorem Layout.tokens_eq {lexemes others : List (List Char)} {tokens found : List PlacedToken}
    (h : Layout before text lexemes tokens) (h' : Layout before text others found) :
    tokens = found := by
  have heq := h.tokensFrom_eq.symm.trans h'.tokensFrom_eq
  cases heq
  rfl

/-- A lexeme stays one in front of a text with closing tokens and more behind it. -/
theorem Lexeme.append_layout {lexemes : List (List Char)} {tokens : List PlacedToken}
    {start : Position} (h : Lexeme text lexeme token) (hlayout : Layout before text lexemes tokens)
    (hlast : ∀ t ∈ (⟨token, start⟩ :: tokens).getLast?, Closing t) (rest : List Char) :
    Lexeme (text ++ rest) lexeme token := by
  by_cases hnil : text = []
  · subst hnil
    obtain rfl : tokens = [] := hlayout.tokens_eq (.finish .nil)
    obtain ⟨s, hs, htoken⟩ := hlast _ rfl
    obtain rfl : token = .symbol s := htoken
    exact h.closing hs _
  · refine h.append hnil (fun hpoint => ?_) rest
    subst hpoint
    have hdot : Lexeme [] ['.'] (.symbol .dot) := .symbol (s := .dot) fun _ _ h => by cases h
    have hfound := hlayout.tokens_eq (.token .nil hdot (.finish .nil))
    subst hfound
    obtain ⟨s, hs, htoken⟩ := hlast _ rfl
    cases htoken
    exact absurd hs (by decide)

/-- The tokens of a text with another one behind it. -/
theorem Layout.tokensFrom_append {lexemes : List (List Char)} {tokens : List PlacedToken}
    (h : Layout before text lexemes tokens) (hparted : Parted before text rest)
    (hlast : ∀ t ∈ tokens.getLast?, Closing t) : tokensFrom (place before) (text ++ rest) =
      (tokensFrom (place (before ++ text)) rest).map (·.prepend tokens) := by
  induction h with
  | @finish before gap hgap =>
    rw [tokensFrom_congr ((hgap.parted hparted).skip _), after_place]
    cases tokensFrom (place (before ++ gap)) rest <;> rfl
  | @token before gap lexeme text token lexemes tokens hgap hlexeme hlayout ih =>
    have hhead : ∀ cs ds, (lexeme ++ cs).head? = (lexeme ++ ds).head? := by
      obtain ⟨c, taken, rfl⟩ := List.exists_cons_of_ne_nil hlexeme.ne_nil
      exact fun _ _ => rfl
    have hlexeme' := hlexeme.append_layout hlayout hlast rest
    have hparted' : Parted (before ++ gap ++ lexeme) text rest := by
      rintro front comment list rfl hcomment hlist
      refine hparted (gap ++ (lexeme ++ front)) comment _ ?_ hcomment
        ((tokensFrom_lexeme (hgap.congr (hhead _ _)) hlexeme.of_append before).trans
          (congrArg _ hlist))
      simp only [List.append_assoc]
    have hlast' : ∀ t ∈ tokens.getLast?, Closing t := by
      intro t ht
      apply hlast
      rw [List.getLast?_cons, ht]
      rfl
    have hrest := ih hparted' hlast'
    rw [List.append_assoc, List.append_assoc,
      tokensFrom_lexeme (hgap.congr (hhead _ _)) hlexeme', hrest]
    simp only [List.append_assoc]
    cases tokensFrom _ rest <;> rfl

end Seam

theorem Comment.newline_not_mem {comment : List Char} (h : Comment comment) : '\n' ∉ comment := by
  cases h with
  | hash hline => simp [hline]
  | slashes hline => simp [hline]

theorem Comment.ne_nil {comment : List Char} (h : Comment comment) : comment ≠ [] := by
  cases h <;> exact List.cons_ne_nil _ _

theorem not_endsInComment_newline (text : List Char) : ¬ EndsInComment (text ++ ['\n']) := by
  rintro ⟨front, comment, list, htext, hcomment, -⟩
  have hlast := congrArg List.getLast? htext
  rw [List.getLast?_concat, List.getLast?_append_of_ne_nil _ hcomment.ne_nil] at hlast
  exact hcomment.newline_not_mem (List.mem_of_getLast? hlast.symm)

theorem not_endsInComment_of_not_mem {text : List Char} (hhash : '#' ∉ text) (hslash : '/' ∉ text) :
    ¬ EndsInComment text := by
  rintro ⟨front, comment, list, rfl, hcomment, -⟩
  cases hcomment with
  | hash _ => exact hhash (by simp)
  | slashes _ => exact hslash (by simp)

/-- Behind a text that ends in a closing symbol and not inside of a comment, another one has the
tokens that it has alone. Only a newline may come behind a comment. -/
theorem tokenize_append {a b : String} {list : TokenList} (ha : tokenize a = .ok list)
    (hlast : ∀ t ∈ list.tokens.getLast?, Closing t)
    (hseam : EndsInComment a.toList → ∀ c ∈ b.toList.head?, c = '\n') :
    tokenize (a ++ b) = (((tokenize b).map (·.move (behind a.toList))).mapError
      (·.move (behind a.toList))).map (·.prepend list.tokens) := by
  obtain ⟨-, lexemes, hlayout⟩ := tokenize_eq_ok_iff.1 ha
  have hparted : Parted [] a.toList b.toList := fun front comment found htext hcomment hfound =>
    hseam ⟨front, comment, found, htext, hcomment, hfound⟩
  have hmoved := (moves_behind a.toList).tokensFrom (p := .start) (Nat.le_refl 1) b.toList
  rw [behind_start] at hmoved
  rw [tokenize, String.toList_append]
  exact (hlayout.tokensFrom_append hparted hlast).trans (congrArg _ hmoved)

end Source
end TypedFlow
