import TypedFlow.Proofs.Effects
import TypedFlow.Proofs.Source.Numerals

/-!
# How a text is laid out

A text is scanned exactly if it is an alternation of trivia and lexemes. Then its tokens are those
of the lexemes, each placed by the newlines and the characters before it, and no lexeme could be
longer. The lexemes alone, with a blank between them, have the same tokens.
-/
namespace TypedFlow.Source

section Places

/-- Where the text that comes before leaves off: one line more than newlines, one column more than
characters since the last of them. -/
def place (before : List Char) : Position :=
  ⟨before.count '\n' + 1, (before.reverse.takeWhile (· != '\n')).length + 1⟩

theorem place_snoc (before : List Char) (c : Char) :
    place (before ++ [c]) = (place before).step c := by
  by_cases hc : c = '\n'
  · subst hc
    simp [place, Position.step]
  · simp [place, Position.step, hc]

theorem after_place (before cs : List Char) : (place before).after cs = place (before ++ cs) := by
  induction cs generalizing before with
  | nil => rw [List.append_nil]; rfl
  | cons c cs ih =>
    calc (place before).after (c :: cs) = ((place before).step c).after cs := rfl
      _ = place (before ++ [c] ++ cs) := by rw [← place_snoc, ih]
      _ = place (before ++ c :: cs) := by rw [List.append_assoc, List.singleton_append]

end Places

section Trivia

theorem head_dropWhile {p : Char → Bool} (cs : List Char) :
    ∀ c ∈ (cs.dropWhile p).head?, p c = false := by
  intro c hc
  have hnot := List.head?_dropWhile_not p cs
  rw [hc] at hnot
  simpa using hnot

/-- A hash or two slashes, and nothing behind them that ends the line. -/
inductive Comment : List Char → Prop
  | hash {line : List Char} : '\n' ∉ line → Comment ('#' :: line)
  | slashes {line : List Char} : '\n' ∉ line → Comment ('/' :: '/' :: line)

/-- Blanks and comments before `rest`. Behind a comment comes a newline, unless the text ends. -/
inductive Trivia (rest : List Char) : List Char → Prop
  | nil : Trivia rest []
  | blank {c : Char} {gap : List Char} : Text.isBlank c = true → Trivia rest gap →
      Trivia rest (c :: gap)
  | comment {comment gap : List Char} : Comment comment → (∀ c ∈ (gap ++ rest).head?, c = '\n') →
      Trivia rest gap → Trivia rest (comment ++ gap)

theorem isBlank_newline : Text.isBlank '\n' = true := by decide

theorem skipTrivia_blank {c : Char} (h : Text.isBlank c = true) (p : Position) (cs : List Char) :
    skipTrivia false p (c :: cs) = skipTrivia false (p.step c) cs := by
  simp [skipTrivia, h]

/-- Inside a comment scanning goes on at the end of the line. -/
theorem skipTrivia_line (p : Position) (cs : List Char) :
    skipTrivia true p cs =
      skipTrivia false (p.after (cs.takeWhile (· != '\n'))) (cs.dropWhile (· != '\n')) := by
  induction cs generalizing p with
  | nil => rfl
  | cons c cs ih =>
    by_cases hc : c = '\n'
    · subst hc
      exact (skipTrivia_blank isBlank_newline p cs).symm
    · have hne : (c != '\n') = true := bne_iff_ne.2 hc
      rw [List.takeWhile_cons_of_pos (p := (· != '\n')) hne,
        List.dropWhile_cons_of_pos (p := (· != '\n')) hne, skipTrivia, if_pos rfl, hne, ih]
      rfl

/-- What has been skipped where a comment begins. -/
theorem skipTrivia_mark {c : Char} {cs : List Char}
    (h : c = '#' ∨ c = '/' ∧ cs.head? = some '/') (p : Position) :
    skipTrivia false p (c :: cs) = skipTrivia true (p.step c) cs := by
  have hblank : Text.isBlank '#' = false ∧ Text.isBlank '/' = false := by decide
  rcases h with rfl | ⟨rfl, hslash⟩
  · simp [skipTrivia, hblank.1]
  · simp [skipTrivia, hblank.2, hslash]

theorem skipTrivia_append_line {line rest : List Char} (hline : '\n' ∉ line)
    (hrest : ∀ c ∈ rest.head?, c = '\n') (p : Position) :
    skipTrivia true p (line ++ rest) = skipTrivia false (p.after line) rest := by
  have hall : ∀ c ∈ line, (c != '\n') = true := by
    intro c hc
    apply bne_iff_ne.2
    rintro rfl
    exact hline hc
  have hhead : ∀ c ∈ rest.head?, (c != '\n') = false := by
    intro c hc
    rw [hrest c hc]
    rfl
  have htake := takeWhile_append_eq hall hhead
  have hdrop : (line ++ rest).dropWhile (· != '\n') = rest := by
    have hsplit := List.takeWhile_append_dropWhile (p := (· != '\n')) (l := line ++ rest)
    rw [htake] at hsplit
    exact List.append_cancel_left hsplit
  rw [skipTrivia_line, htake, hdrop]

theorem Comment.skip {comment rest : List Char} (h : Comment comment)
    (hrest : ∀ c ∈ rest.head?, c = '\n') (p : Position) :
    skipTrivia false p (comment ++ rest) = skipTrivia false (p.after comment) rest := by
  cases h with
  | hash hline =>
    rw [List.cons_append, skipTrivia_mark (.inl rfl)]
    exact skipTrivia_append_line hline hrest _
  | @slashes line hline =>
    have hslash : '\n' ∉ '/' :: line := by simp [hline]
    rw [List.cons_append, skipTrivia_mark (.inr ⟨rfl, rfl⟩)]
    exact skipTrivia_append_line hslash hrest _

theorem Trivia.skip {gap rest : List Char} (h : Trivia rest gap) (p : Position) :
    skipTrivia false p (gap ++ rest) = skipTrivia false (p.after gap) rest := by
  induction h generalizing p with
  | nil => rfl
  | @blank c gap hc _ ih =>
    rw [List.cons_append, skipTrivia_blank hc, ih]
    rfl
  | @comment comment gap hcomment hnewline _ ih =>
    rw [List.append_assoc, hcomment.skip hnewline, ih, Position.after_append]

theorem exists_comment {c : Char} {cs : List Char} (h : c = '#' ∨ c = '/' ∧ cs.head? = some '/') :
    ∃ comment rest, c :: cs = comment ++ rest ∧ Comment comment ∧
      ∀ d ∈ rest.head?, d = '\n' := by
  have hline : ∀ ds : List Char, '\n' ∉ ds.takeWhile (· != '\n') := by
    intro ds hmem
    exact absurd (List.all_eq_true.1 List.all_takeWhile _ hmem) (by decide)
  have hnewline : ∀ ds : List Char, ∀ d ∈ (ds.dropWhile (· != '\n')).head?, d = '\n' := by
    intro ds d hd
    simpa using head_dropWhile ds d hd
  rcases h with rfl | ⟨rfl, hslash⟩
  · refine ⟨'#' :: cs.takeWhile (· != '\n'), cs.dropWhile (· != '\n'), ?_, .hash (hline cs),
      hnewline cs⟩
    rw [List.cons_append, List.takeWhile_append_dropWhile]
  · obtain ⟨ds, rfl⟩ : ∃ ds, cs = '/' :: ds := List.head?_eq_some_iff.1 hslash
    refine ⟨'/' :: '/' :: ds.takeWhile (· != '\n'), ds.dropWhile (· != '\n'), ?_,
      .slashes (hline ds), hnewline ds⟩
    rw [List.cons_append, List.cons_append, List.takeWhile_append_dropWhile]

/-- What is skipped is trivia. -/
theorem exists_trivia (p : Position) (cs : List Char) : ∃ gap rest, cs = gap ++ rest ∧
    Trivia rest gap ∧ skipTrivia false p cs = (p.after gap, rest) := by
  induction hn : cs.length using Nat.strongRecOn generalizing p cs with
  | ind n ih =>
    subst hn
    cases cs with
    | nil => exact ⟨[], [], rfl, .nil, rfl⟩
    | cons c cs =>
      by_cases hblank : Text.isBlank c = true
      · obtain ⟨gap, rest, rfl, hgap, hskip⟩ := ih _ (Nat.lt_succ_self _) (p.step c) cs rfl
        exact ⟨c :: gap, rest, rfl, .blank hblank hgap,
          (skipTrivia_blank hblank p _).trans hskip⟩
      · by_cases hmark : c = '#' ∨ c = '/' ∧ cs.head? = some '/'
        · obtain ⟨comment, tail, htext, hcomment, hnewline⟩ := exists_comment hmark
          have hlt : tail.length < (c :: cs).length := by
            rw [htext, List.length_append]
            have hpos : 0 < comment.length := by
              cases hcomment <;> exact Nat.succ_pos _
            omega
          obtain ⟨gap, rest, rfl, hgap, hskip⟩ := ih _ hlt (p.after comment) tail rfl
          refine ⟨comment ++ gap, rest, ?_, .comment hcomment hnewline hgap, ?_⟩
          · rw [htext, List.append_assoc]
          · rw [htext, hcomment.skip hnewline, hskip, Position.after_append]
        · refine ⟨[], c :: cs, rfl, .nil, ?_⟩
          have hplain : (c == '#' || c == '/' && cs.head? == some '/') = false := by
            simpa [not_or] using hmark
          simp [skipTrivia, hblank, hplain]
          rfl

end Trivia

section Lexemes

/-- The characters that stand behind a backslash, and those for which they do. -/
def escapes : List (Char × Char) := [('n', '\n'), ('t', '\t'), ('"', '"'), ('\\', '\\')]

/-- What stands between quotes, and the text that it stands for. -/
inductive Quoted : List Char → List Char → Prop
  | nil : Quoted [] []
  | plain {c : Char} {body value : List Char} : c ≠ '"' → c ≠ '\\' → Quoted body value →
      Quoted (c :: body) (c :: value)
  | escape {c d : Char} {body value : List Char} : (c, d) ∈ escapes → Quoted body value →
      Quoted ('\\' :: c :: body) (d :: value)

/-- The spelling of a token before `rest`, which does not begin with what could go on with it. -/
inductive Lexeme (rest : List Char) : List Char → Token → Prop
  | word {w : String} : IsWord w → (∀ c ∈ rest.head?, isWordPart c = false) →
      Lexeme rest w.toList (.word w)
  | number {d : Digits} : d.EndsBefore rest → Lexeme rest d.chars (.number d.value)
  | text {body value : List Char} : Quoted body value →
      Lexeme rest ('"' :: (body ++ ['"'])) (.text (String.ofList value))
  | symbol {s : Symbol} : (∀ c ∈ continuation? s, rest.head? ≠ some c) →
      Lexeme rest s.spelling.toList (.symbol s)
  | range {mark : RangeMark} : (mark.maxInclusive = true → rest.head? ≠ some '<') →
      Lexeme rest mark.spelling.toList (.range mark)

variable {rest lexeme : List Char} {token : Token}

theorem Quoted.textBody_eq {body value : List Char} (h : Quoted body value) (taken : Nat)
    (rest : List Char) :
    textBody taken (body ++ '"' :: rest) = .ok (value, taken + body.length + 1) := by
  induction h generalizing taken with
  | nil => rfl
  | @plain c body value hquote hbackslash _ ih =>
    rw [List.cons_append, textBody]
    · rw [ih]
      simp [Except.map, Nat.add_assoc, Nat.add_comm 1]
    all_goals simp_all
  | @escape c d body value hescape _ ih =>
    simp only [escapes, List.mem_cons, Prod.mk.injEq, List.not_mem_nil, or_false] at hescape
    rcases hescape with ⟨rfl, rfl⟩ | ⟨rfl, rfl⟩ | ⟨rfl, rfl⟩ | ⟨rfl, rfl⟩
    all_goals
      simp only [List.cons_append, textBody, ih, Except.map, List.length_cons]
      simp [Nat.add_assoc, Nat.add_comm 2]

/-- A lexeme is scanned as its token. -/
theorem Lexeme.scanned (h : Lexeme rest lexeme token) : Scanned lexeme token rest := by
  cases h with
  | word hw hrest => exact scanned_word hw hrest
  | number hrest => exact Digits.scanned hrest
  | @text body value hquoted =>
    apply scanned_text
    rw [hquoted.textBody_eq, Nat.add_comm 1]
  | symbol hrest => exact scanned_symbol _ hrest
  | range hrest => exact scanned_rangeMark _ hrest

/-- The part of a body that has been scanned, and what is left of it. -/
theorem of_map_eq_ok {body : Except Fault (List Char × Nat)} {c : Char} {value : List Char}
    {n : Nat} (h : (body.map fun (body, n) => (c :: body, n)) = .ok (value, n)) :
    ∃ inner, body = .ok (inner, n) ∧ value = c :: inner := by
  cases body with
  | error fault => cases h
  | ok found =>
    cases h
    exact ⟨found.1, rfl, rfl⟩

theorem exists_quoted {taken n : Nat} {cs value : List Char}
    (h : textBody taken cs = .ok (value, n)) :
    ∃ body rest, cs = body ++ '"' :: rest ∧ Quoted body value ∧ n = taken + body.length + 1 := by
  fun_induction textBody taken cs generalizing value n with
  | case1 | case3 | case8 => cases h
  | case2 =>
    cases h
    exact ⟨[], _, rfl, .nil, rfl⟩
  | case4 _ cs ih | case5 _ cs ih | case6 _ cs ih | case7 _ cs ih =>
    obtain ⟨inner, hinner, rfl⟩ := of_map_eq_ok h
    obtain ⟨body, rest, rfl, hbody, rfl⟩ := ih hinner
    refine ⟨_ :: _ :: body, rest, rfl, .escape (by decide) hbody, ?_⟩
    simp only [List.length_cons]
    omega
  | case9 _ c cs hquote hlast hescape ih =>
    obtain ⟨inner, hinner, rfl⟩ := of_map_eq_ok h
    obtain ⟨body, rest, rfl, hbody, rfl⟩ := ih hinner
    have hbackslash : c ≠ '\\' := by
      rintro rfl
      obtain ⟨d, ds, hds⟩ := List.exists_cons_of_ne_nil
        (List.append_ne_nil_of_right_ne_nil body (List.cons_ne_nil '"' rest))
      exact hescape d ds rfl hds
    refine ⟨c :: body, rest, rfl, .plain hquote hbackslash hbody, ?_⟩
    simp only [List.length_cons]
    omega

/-- A number has its digits, and those behind a point. -/
theorem exists_digits_numberToken {c : Char} (hc : c.isDigit = true) (cs : List Char) :
    ∃ (d : Digits) (rest : List Char), c :: cs = d.chars ++ rest ∧ d.EndsBefore rest ∧
      numberToken c cs = (.number d.value, (d.whole ++ pointed d.fraction).length) := by
  let whole := cs.takeWhile Char.isDigit
  let after := cs.dropWhile Char.isDigit
  have hsplit : cs = whole ++ after := List.takeWhile_append_dropWhile.symm
  have hwhole : ∀ x ∈ whole, x.isDigit = true := List.all_eq_true.1 List.all_takeWhile
  have hdigit : ∀ x ∈ after.head?, x.isDigit = false := head_dropWhile cs
  suffices h : ∃ (d : Digits) (rest : List Char), c :: cs = d.chars ++ rest ∧ d.EndsBefore rest ∧
      d.first = c ∧ cs = d.whole ++ pointed d.fraction ++ rest by
    obtain ⟨d, rest, htext, hrest, rfl, hcs⟩ := h
    refine ⟨d, rest, htext, hrest, ?_⟩
    rw [hcs]
    exact Digits.numberToken_chars hrest
  clear_value whole after
  cases hfraction : fractionDigits after with
  | nil =>
    refine ⟨⟨c, whole, [], ?_⟩, after, ?_, ⟨hdigit, fun _ => hfraction⟩, rfl, ?_⟩
    · simpa using ⟨hc, hwhole⟩
    · simp [Digits.chars, pointed, ← hsplit]
    · simp [pointed, ← hsplit]
  | cons x fraction =>
    obtain ⟨more, hafter⟩ : ∃ more, after = '.' :: more := by
      unfold fractionDigits at hfraction
      split at hfraction
      · exact ⟨_, rfl⟩
      · cases hfraction
    rw [hafter] at hfraction
    have hall : ∀ y ∈ x :: fraction, y.isDigit = true := by
      rw [← hfraction]
      exact List.all_eq_true.1 List.all_takeWhile
    have hmore : more = x :: fraction ++ more.dropWhile Char.isDigit := by
      rw [← hfraction]
      exact List.takeWhile_append_dropWhile.symm
    have htext : cs = whole ++ pointed (x :: fraction) ++ more.dropWhile Char.isDigit := by
      rw [List.append_assoc, pointed, List.cons_append, ← hmore, ← hafter, ← hsplit]
      exact List.cons_ne_nil x fraction
    refine ⟨⟨c, whole, x :: fraction, ?_⟩, more.dropWhile Char.isDigit, ?_,
      ⟨head_dropWhile more, ?_⟩, rfl, htext⟩
    · simpa only [List.cons_append, List.forall_mem_cons, List.forall_mem_append] using
        ⟨hc, hwhole, List.forall_mem_cons.1 hall⟩
    · rw [Digits.chars, List.cons_append, ← htext]
    · exact fun hnil => absurd hnil (List.cons_ne_nil x fraction)

theorem head?_ne_some {c : Char} {cs : List Char} (h : ∀ tail, cs = c :: tail → False) :
    cs.head? ≠ some c := by
  intro hhead
  obtain ⟨tail, htail⟩ := List.head?_eq_some_iff.1 hhead
  exact h tail htail

theorem exists_symbol (s : Symbol) {c : Char} (taken rest : List Char)
    (hspelling : s.spelling.toList = c :: taken)
    (hrest : ∀ d ∈ continuation? s, rest.head? ≠ some d) :
    ∃ front back, taken ++ rest = front ++ back ∧ taken.length = front.length ∧
      Lexeme back (c :: front) (.symbol s) :=
  ⟨taken, rest, rfl, rfl, hspelling ▸ .symbol hrest⟩

theorem exists_range (mark : RangeMark) {c : Char} (taken rest : List Char)
    (hspelling : mark.spelling.toList = c :: taken)
    (hrest : mark.maxInclusive = true → rest.head? ≠ some '<') :
    ∃ front back, taken ++ rest = front ++ back ∧ taken.length = front.length ∧
      Lexeme back (c :: front) (.range mark) :=
  ⟨taken, rest, rfl, rfl, hspelling ▸ .range hrest⟩

theorem exists_lexeme_of_markToken? {c : Char} {cs : List Char} {more : Nat}
    (h : markToken? c cs = some (token, more)) :
    ∃ taken rest, cs = taken ++ rest ∧ more = taken.length ∧ Lexeme rest (c :: taken) token := by
  have hnone : ∀ {c : Char}, c ∈ (none : Option Char) → cs.head? ≠ some c := fun h => by cases h
  have hsome : ∀ {d : Char}, (∀ tail, cs = d :: tail → False) →
      ∀ c ∈ some d, cs.head? ≠ some c := by
    intro d hd c hc
    cases hc
    exact head?_ne_some hd
  unfold markToken? at h
  split at h
  all_goals cases h
  case h_1 rest => exact exists_range ⟨false, false⟩ ['.', '.', '<'] rest rfl fun h => by cases h
  case h_2 rest hless =>
    exact exists_range ⟨false, true⟩ ['.', '.'] rest rfl fun _ => head?_ne_some hless
  case h_3 rest => exact exists_range ⟨true, false⟩ ['.', '<'] rest rfl fun h => by cases h
  case h_4 rest hless => exact exists_range ⟨true, true⟩ ['.'] rest rfl fun _ => head?_ne_some hless
  case h_5 _ hpoint => exact exists_symbol .dot [] cs rfl (hsome hpoint)
  case h_6 rest => exact exists_symbol .pathSeparator [':'] rest rfl fun _ h => by cases h
  case h_7 hcolon => exact exists_symbol .colon [] cs rfl (hsome hcolon)
  case h_8 rest => exact exists_symbol .arrow ['>'] rest rfl fun _ h => by cases h
  case h_9 hangle => exact exists_symbol .assign [] cs rfl (hsome hangle)
  all_goals exact exists_symbol _ [] cs rfl fun _ => hnone

/-- What is scanned as a token is a lexeme of it. -/
theorem exists_lexeme {c : Char} {cs : List Char} {more : Nat}
    (h : lexeme? c cs = .ok (token, more)) :
    ∃ taken rest, cs = taken ++ rest ∧ more = taken.length ∧ Lexeme rest (c :: taken) token := by
  unfold lexeme? at h
  split at h
  · rename_i hdigit
    obtain ⟨d, rest, htext, hrest, hnumber⟩ := exists_digits_numberToken hdigit cs
    rw [hnumber] at h
    cases h
    obtain ⟨rfl, rfl⟩ := List.cons.inj htext
    exact ⟨_, rest, rfl, rfl, .number hrest⟩
  · split at h
    · rename_i hquote
      subst hquote
      cases hbody : textBody 1 cs with
      | error fault =>
        rw [hbody] at h
        cases h
      | ok found =>
        obtain ⟨body, rest, rfl, hquoted, hn⟩ := exists_quoted hbody
        rw [hbody] at h
        cases h
        refine ⟨body ++ ['"'], rest, by simp, ?_, .text hquoted⟩
        simp only [List.length_append, List.length_singleton]
        omega
    · split at h
      · rename_i hstart
        cases h
        refine ⟨cs.takeWhile isWordPart, cs.dropWhile isWordPart,
          List.takeWhile_append_dropWhile.symm, rfl, ?_⟩
        have hword : IsWord (String.ofList (c :: cs.takeWhile isWordPart)) :=
          ⟨c, _, rfl, hstart, List.all_eq_true.1 List.all_takeWhile⟩
        have hlexeme := Lexeme.word hword (head_dropWhile (p := isWordPart) cs)
        rwa [String.toList_ofList] at hlexeme
      · split at h
        · rename_i mark hmark
          cases h
          exact exists_lexeme_of_markToken? hmark
        · cases h

end Lexemes

section Layouts

/-- A text behind another one, split into trivia and lexemes. Each token stands where its lexeme
begins, and trivia may come last. -/
inductive Layout : (before text : List Char) → List (List Char) → List PlacedToken → Prop
  | finish {before gap : List Char} : Trivia [] gap → Layout before gap [] []
  | token {before gap lexeme rest : List Char} {token : Token} {lexemes : List (List Char)}
      {tokens : List PlacedToken} : Trivia (lexeme ++ rest) gap → Lexeme rest lexeme token →
      Layout (before ++ gap ++ lexeme) rest lexemes tokens →
      Layout before (gap ++ (lexeme ++ rest)) (lexeme :: lexemes)
        (⟨token, place (before ++ gap)⟩ :: tokens)

variable {before cs : List Char} {lexemes : List (List Char)} {tokens : List PlacedToken}

/-- A first lexeme gives the first token. -/
theorem tokensFrom_lexeme {gap lexeme rest : List Char} {token : Token}
    (hgap : Trivia (lexeme ++ rest) gap) (hlexeme : Lexeme rest lexeme token)
    (before : List Char) :
    tokensFrom (place before) (gap ++ (lexeme ++ rest)) =
      (tokensFrom (place (before ++ gap ++ lexeme)) rest).map
        (·.prepend [⟨token, place (before ++ gap)⟩]) := by
  rw [tokensFrom_congr (hgap.skip _), hlexeme.scanned.tokensFrom_append, after_place, after_place]

theorem Layout.tokensFrom_eq (h : Layout before cs lexemes tokens) :
    tokensFrom (place before) cs = .ok ⟨tokens, place (before ++ cs)⟩ := by
  induction h with
  | @finish before gap hgap =>
    have hskip := hgap.skip (place before)
    rw [List.append_nil, after_place] at hskip
    rw [Source.tokensFrom_eq, hskip]
    rfl
  | token hgap hlexeme _ ih =>
    rw [tokensFrom_lexeme hgap hlexeme, ih]
    simp [Except.map, TokenList.prepend]

theorem exists_layout {list : TokenList} (h : tokensFrom (place before) cs = .ok list) :
    list.finish = place (before ++ cs) ∧ ∃ lexemes, Layout before cs lexemes list.tokens := by
  induction hn : cs.length using Nat.strongRecOn generalizing before cs list with
  | ind n ih =>
    subst hn
    obtain ⟨gap, rest, rfl, hgap, hskip⟩ := exists_trivia (place before) cs
    rw [Source.tokensFrom_eq, hskip, after_place] at h
    cases rest with
    | nil =>
      cases h
      rw [List.append_nil]
      exact ⟨rfl, [], .finish hgap⟩
    | cons c rest =>
      rw [tokensAt] at h
      split at h
      · cases h
      · rename_i token more hfound
        obtain ⟨taken, rest, rfl, rfl, hlexeme⟩ := exists_lexeme hfound
        have hplace : ((place (before ++ gap)).step c).after taken =
            place (before ++ gap ++ c :: taken) := after_place (before ++ gap) (c :: taken)
        rw [List.take_left, List.drop_left, hplace] at h
        have hlt : rest.length < (gap ++ c :: (taken ++ rest)).length := by
          simp only [List.length_append, List.length_cons]
          omega
        cases hrest : tokensFrom (place (before ++ gap ++ c :: taken)) rest with
        | error e =>
          rw [hrest] at h
          cases h
        | ok following =>
          rw [hrest] at h
          cases h
          obtain ⟨hfinish, lexemes, hlayout⟩ := ih _ hlt hrest rfl
          refine ⟨?_, (c :: taken) :: lexemes, .token hgap hlexeme hlayout⟩
          simpa [TokenList.prepend] using hfinish

theorem tokenize_eq_ok_iff {source : String} {list : TokenList} :
    tokenize source = .ok list ↔ list.finish = place source.toList ∧
      ∃ lexemes, Layout [] source.toList lexemes list.tokens := by
  constructor
  · exact fun h => @exists_layout [] _ _ h
  · rintro ⟨hfinish, lexemes, hlayout⟩
    have htokens := hlayout.tokensFrom_eq
    rw [List.nil_append, ← hfinish] at htokens
    exact htokens

/-- A lexeme stays one where a blank or nothing comes behind it. -/
theorem Lexeme.before_space {rest lexeme : List Char} {token : Token} (h : Lexeme rest lexeme token)
    {following : List Char} (hhead : ∀ c ∈ following.head?, c = ' ') :
    Lexeme following lexeme token := by
  have hne : ∀ c, c ≠ ' ' → following.head? ≠ some c := fun c hc heq => hc (hhead c heq)
  have hpart : ∀ c ∈ following.head?, isWordPart c = false ∧ c.isDigit = false := by
    intro c hc
    rw [hhead c hc]
    decide
  cases h with
  | word hw _ => exact .word hw fun c hc => (hpart c hc).1
  | number _ =>
    refine .number ⟨fun c hc => (hpart c hc).2, fun _ => ?_⟩
    unfold fractionDigits
    split
    · exact absurd rfl (hne '.' (by decide))
    · rfl
  | text hquoted => exact .text hquoted
  | symbol _ =>
    refine .symbol fun c hc => hne c ?_
    rename_i s _
    cases s <;> cases hc <;> decide
  | range _ => exact .range fun _ => hne '<' (by decide)

/-- The lexemes with blanks between them have the tokens of the text. -/
theorem Layout.scans_spaced (h : Layout before cs lexemes tokens) :
    Scans ([' '].intercalate lexemes) (tokens.map (·.token)) := by
  induction h with
  | finish _ => exact scans_nil
  | @token before gap lexeme rest token lexemes tokens _ hlexeme hrest ih =>
    cases lexemes with
    | nil =>
      cases hrest
      rw [List.intercalate_singleton, ← List.append_nil lexeme]
      exact scans_nil.scanned (hlexeme.before_space fun _ h => by cases h).scanned
    | cons next lexemes =>
      rw [List.intercalate_cons_cons, List.append_assoc]
      refine ih.space.scanned (hlexeme.before_space ?_).scanned
      intro c hc
      cases hc
      rfl

/-- Scanning loses nothing and moves nothing. A text that is scanned is laid out as lexemes between
trivia, each token standing where its lexeme does and the end where the text ends; no other tokens
are laid out in it; and the lexemes can be moved apart. -/
theorem tokens_are_laid_out {source : String} {list : TokenList}
    (h : tokenize source = .ok list) :
    list.finish = place source.toList ∧ ∃ lexemes, Layout [] source.toList lexemes list.tokens ∧
      (∀ others tokens, Layout [] source.toList others tokens → tokens = list.tokens) ∧
      ∃ spaced, tokenize (String.ofList ([' '].intercalate lexemes)) = .ok spaced ∧
        spaced.tokens.map (·.token) = list.tokens.map (·.token) := by
  obtain ⟨hfinish, lexemes, hlayout⟩ := tokenize_eq_ok_iff.1 h
  refine ⟨hfinish, lexemes, hlayout, fun others tokens hother => ?_, ?_⟩
  · have htokens := hother.tokensFrom_eq
    rw [List.nil_append] at htokens
    have heq := htokens.symm.trans h
    cases heq
    rfl
  · have hscans := hlayout.scans_spaced .start
    rw [tokenize, String.toList_ofList]
    exact hscans

/-- A point between a number and a word, a range after a number, a text over two lines, and two
comments. -/
theorem range_and_text_are_laid_out :
    ∃ list, tokenize "let x_1 = 0..<5.5.y; # <..\n\"b\n\\\"//\" <.. // c" = .ok list ∧
      list.tokens.map (·.token) = [.word "let", .word "x_1", .symbol .assign, .number 0,
        .range ⟨true, false⟩, .number (.ofDecimal 55 1), .symbol .dot, .word "y", .symbol .semicolon,
        .text "b\n\"//", .range ⟨false, true⟩] ∧
      list.finish = place ("let x_1 = 0..<5.5.y; # <..\n\"b\n\\\"//\" <.. // c").toList ∧
      ∃ lexemes, Layout [] ("let x_1 = 0..<5.5.y; # <..\n\"b\n\\\"//\" <.. // c").toList lexemes
          list.tokens ∧
        ∃ spaced, tokenize (String.ofList ([' '].intercalate lexemes)) = .ok spaced ∧
          spaced.tokens.map (·.token) = list.tokens.map (·.token) := by
  let source := "let x_1 = 0..<5.5.y; # <..\n\"b\n\\\"//\" <.. // c"
  let list := (tokenize source).toOption.getD ⟨[], .start⟩
  have hlist : tokenize source = .ok list := eq_ok_of_isOk (by decide +kernel) _
  have htokens : list.tokens.map (·.token) = [.word "let", .word "x_1", .symbol .assign, .number 0,
      .range ⟨true, false⟩, .number (.ofDecimal 55 1), .symbol .dot, .word "y", .symbol .semicolon,
      .text "b\n\"//", .range ⟨false, true⟩] := by decide +kernel
  obtain ⟨hfinish, lexemes, hlayout, -, hspaced⟩ := tokens_are_laid_out hlist
  exact ⟨list, hlist, htokens, hfinish, lexemes, hlayout, hspaced⟩

end Layouts

end TypedFlow.Source
