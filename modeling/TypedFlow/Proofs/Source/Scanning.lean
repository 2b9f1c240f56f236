import TypedFlow.Proofs.Number.Nearest
import TypedFlow.Proofs.Source.Words

/-!
# Scanning what is written

A word, a number, a quoted text and a mark are each scanned back as one token, unless what follows
goes on with it. So a text is scanned from its end: what is put in front of it adds its token.
-/
namespace TypedFlow

/-- Further tokens in front. -/
def TokenList.prepend (front : List PlacedToken) (list : TokenList) : TokenList :=
  ⟨front ++ list.tokens, list.finish⟩

namespace Source

/-- The text is split into the tokens, wherever it starts. -/
def Scans (cs : List Char) (tokens : List Token) : Prop :=
  ∀ p, ∃ list, tokensFrom p cs = .ok list ∧ list.tokens.map (·.token) = tokens

/-- The character begins a token, and neither a blank nor a comment. -/
structure BeginsToken (c : Char) : Prop where
  not_blank : Text.isBlank c = false
  not_hash : c ≠ '#'
  not_slash : c ≠ '/'

/-- The characters are scanned as the token, if `rest` comes after them. -/
def Scanned (lexeme : List Char) (token : Token) (rest : List Char) : Prop :=
  ∃ c taken, lexeme = c :: taken ∧ BeginsToken c ∧
    lexeme? c (taken ++ rest) = .ok (token, taken.length)

/-- Neither a digit nor a point with a digit comes next. -/
structure EndsNumber (rest : List Char) : Prop where
  digit : ∀ c ∈ rest.head?, c.isDigit = false
  point : fractionDigits rest = []

/-- What comes next goes on with no word, number or range. -/
structure Boundary (rest : List Char) : Prop where
  head : ∀ c ∈ rest.head?, isWordPart c = false ∧ c ≠ '<'
  point : fractionDigits rest = []

section Composition
variable {c : Char} {cs ds lexeme rest : List Char} {token : Token} {tokens : List Token}

/-- The tokens of a text that begins with one, unless it is empty. -/
def tokensAt (start : Position) : List Char → Except ParseError TokenList
  | [] => .ok ⟨[], start⟩
  | c :: rest =>
    match lexeme? c rest with
    | .error fault => .error ⟨start.after ((c :: rest).take fault.taken), fault.cause⟩
    | .ok (token, more) =>
      (tokensFrom ((start.step c).after (rest.take more)) (rest.drop more)).map
        (·.prepend [⟨token, start⟩])

theorem tokensFrom_eq (p : Position) (cs : List Char) :
    tokensFrom p cs = tokensAt (skipTrivia false p cs).1 (skipTrivia false p cs).2 := by
  rw [tokensFrom]
  split
  · rename_i hskip
    rw [hskip]
    rfl
  · rename_i start c rest hskip
    rw [hskip, tokensAt]
    cases lexeme? c rest with
    | error fault => rfl
    | ok found =>
      obtain ⟨token, more⟩ := found
      dsimp only
      generalize tokensFrom _ _ = following
      cases following <;> rfl

theorem tokensFrom_congr {p q : Position} (h : skipTrivia false p cs = skipTrivia false q ds) :
    tokensFrom p cs = tokensFrom q ds := by
  rw [tokensFrom_eq, tokensFrom_eq, h]

theorem skipTrivia_of_beginsToken (h : BeginsToken c) (p : Position) :
    skipTrivia false p (c :: cs) = (p, c :: cs) := by
  simp [skipTrivia, h.not_blank, h.not_hash, h.not_slash]

theorem Scanned.tokensFrom_append (h : Scanned lexeme token rest) (p : Position) :
    tokensFrom p (lexeme ++ rest) =
      (tokensFrom (p.after lexeme) rest).map (·.prepend [⟨token, p⟩]) := by
  obtain ⟨c, taken, rfl, hc, hlexeme⟩ := h
  rw [tokensFrom_eq, List.cons_append, skipTrivia_of_beginsToken hc, tokensAt, hlexeme]
  dsimp only
  rw [List.take_left, List.drop_left]
  rfl

theorem scans_nil : Scans [] [] :=
  fun p => ⟨⟨[], p⟩, tokensFrom_eq p [], rfl⟩

theorem Scans.space (h : Scans cs tokens) : Scans (' ' :: cs) tokens := by
  intro p
  have heq : tokensFrom p (' ' :: cs) = tokensFrom (p.step ' ') cs := tokensFrom_congr rfl
  rw [heq]
  exact h (p.step ' ')

theorem Scans.scanned (h : Scans rest tokens) (hscanned : Scanned lexeme token rest) :
    Scans (lexeme ++ rest) (token :: tokens) := by
  intro p
  obtain ⟨list, hlist, htokens⟩ := h (p.after lexeme)
  refine ⟨list.prepend [⟨token, p⟩], ?_, by simp [TokenList.prepend, htokens]⟩
  rw [hscanned.tokensFrom_append, hlist]
  rfl

end Composition

section Characters
variable {c : Char}

/-- What holds of the first 128 characters is checked one by one. -/
theorem ascii_forall {P : Char → Prop} (h : ∀ n < 128, P (Char.ofNat n)) (hc : c.toNat < 128) :
    P c := by
  rw [← Char.ofNat_toNat c]
  exact h c.toNat hc

theorem letters_not_blank :
    (Text.blankRanges.all fun blanks => Text.letterRanges.all fun letters =>
      letters.2.blt blanks.1 || blanks.2.blt letters.1) = true := by
  decide +kernel

theorem isBlank_of_isLetter (h : Text.isLetter c = true) : Text.isBlank c = false := by
  rcases Nat.lt_or_ge c.toNat 128 with hascii | hlarge
  · have hall : ∀ n < 128, Text.isLetter (Char.ofNat n) = true →
        Text.isBlank (Char.ofNat n) = false := by decide
    exact ascii_forall (P := fun c => Text.isLetter c = true → Text.isBlank c = false) hall hascii h
  · rw [Text.isLetter, if_neg (Nat.not_lt.2 hlarge)] at h
    simp only [Text.Ranges.has, List.any_eq_true, Bool.and_eq_true, decide_eq_true_eq] at h
    obtain ⟨letters, hletters, hlow, hhigh⟩ := h
    rw [Bool.eq_false_iff]
    intro hblank
    simp only [Text.isBlank, Text.Ranges.has, List.any_eq_true, Bool.and_eq_true,
      decide_eq_true_eq] at hblank
    obtain ⟨blanks, hblanks, hlow', hhigh'⟩ := hblank
    have hapart := List.all_eq_true.1 (List.all_eq_true.1 letters_not_blank blanks hblanks) letters
      hletters
    simp only [Bool.or_eq_true, Nat.blt_eq] at hapart
    omega

theorem toNat_lt_of_isDigit (h : c.isDigit = true) : c.toNat < 128 := by
  simp only [Char.isDigit, Bool.and_eq_true, decide_eq_true_eq] at h
  exact Nat.lt_of_le_of_lt (UInt32.le_iff_toNat_le.1 h.2) (by decide)

theorem class_of_isDigit (h : c.isDigit = true) :
    isWordPart c = true ∧ isWordStart c = false ∧ BeginsToken c := by
  have hall : ∀ n < 128, (Char.ofNat n).isDigit = true → isWordPart (Char.ofNat n) = true ∧
      isWordStart (Char.ofNat n) = false ∧ Text.isBlank (Char.ofNat n) = false := by
    decide
  obtain ⟨hpart, hstart, hblank⟩ := ascii_forall (P := fun c => c.isDigit = true →
    isWordPart c = true ∧ isWordStart c = false ∧ Text.isBlank c = false) hall
    (toNat_lt_of_isDigit h) h
  refine ⟨hpart, hstart, hblank, ?_, ?_⟩
  · rintro rfl
    cases h
  · rintro rfl
    cases h

theorem beginsToken_of_isWordStart (h : isWordStart c = true) : BeginsToken c := by
  refine ⟨?_, ?_, ?_⟩
  · rcases Bool.or_eq_true_iff.1 h with hletter | hunderscore
    · exact isBlank_of_isLetter hletter
    · obtain rfl := eq_of_beq hunderscore
      decide
  · rintro rfl
    exact absurd h (by decide)
  · rintro rfl
    exact absurd h (by decide)

theorem not_isDigit_of_isWordStart (h : isWordStart c = true) : c.isDigit = false := by
  rw [Bool.eq_false_iff]
  intro hdigit
  rw [(class_of_isDigit hdigit).2.1] at h
  cases h

theorem Boundary.endsNumber {rest : List Char} (h : Boundary rest) : EndsNumber rest := by
  refine ⟨fun c hc => ?_, h.point⟩
  rw [Bool.eq_false_iff]
  intro hdigit
  have hpart := (h.head c hc).1
  rw [(class_of_isDigit hdigit).1] at hpart
  cases hpart

theorem boundary_nil : Boundary [] := by
  refine ⟨fun _ h => ?_, rfl⟩
  cases h

theorem boundary_cons (h : isWordPart c = false ∧ c ≠ '<' ∧ c ≠ '.') (rest : List Char) :
    Boundary (c :: rest) := by
  refine ⟨fun d hd => ?_, ?_⟩
  · cases hd
    exact ⟨h.1, h.2.1⟩
  · unfold fractionDigits
    split
    · rename_i heq
      exact absurd (List.cons.inj heq).1 h.2.2
    · rfl

theorem boundary_space (rest : List Char) : Boundary (' ' :: rest) :=
  boundary_cons (by decide) rest

/-- A point before a word is none of a number. -/
theorem boundary_point {w : String} (hw : IsWord w) (rest : List Char) :
    Boundary ('.' :: (w.toList ++ rest)) := by
  obtain ⟨d, part, rfl, hd, -⟩ := hw
  refine ⟨fun e he => ?_, ?_⟩
  · cases he
    decide
  · rw [String.toList_ofList]
    exact List.takeWhile_cons_of_neg (by simp [not_isDigit_of_isWordStart hd])

end Characters

section Words

theorem takeWhile_append_eq {p : Char → Bool} {taken rest : List Char} (h : ∀ c ∈ taken, p c = true)
    (hrest : ∀ c ∈ rest.head?, p c = false) : (taken ++ rest).takeWhile p = taken := by
  rw [List.takeWhile_append_of_pos h]
  cases rest with
  | nil => simp
  | cons c rest => simp [hrest c rfl]

variable {w : String} {rest : List Char} {tokens : List Token}

theorem scanned_word (hw : IsWord w) (hrest : ∀ c ∈ rest.head?, isWordPart c = false) :
    Scanned w.toList (.word w) rest := by
  obtain ⟨c, part, rfl, hc, hpart⟩ := hw
  refine ⟨c, part, String.toList_ofList, beginsToken_of_isWordStart hc, ?_⟩
  have hdigit := not_isDigit_of_isWordStart hc
  have hquote : c ≠ '"' := by
    rintro rfl
    exact absurd hc (by decide)
  simp [lexeme?, hdigit, hquote, hc, takeWhile_append_eq hpart hrest]

theorem Scans.word (h : Scans rest tokens) (hw : IsWord w)
    (hrest : ∀ c ∈ rest.head?, isWordPart c = false) :
    Scans (w.toList ++ rest) (.word w :: tokens) :=
  h.scanned (scanned_word hw hrest)

end Words

section Marks
variable {rest : List Char} {tokens : List Token}

instance (c : Char) : Decidable (BeginsToken c) :=
  decidable_of_iff (Text.isBlank c = false ∧ c ≠ '#' ∧ c ≠ '/')
    ⟨fun h => ⟨h.1, h.2.1, h.2.2⟩, fun h => ⟨h.1, h.2, h.3⟩⟩

/-- The character begins a mark. -/
def BeginsMark (c : Char) : Prop :=
  BeginsToken c ∧ c.isDigit = false ∧ c ≠ '"' ∧ isWordStart c = false
deriving Decidable

theorem scanned_mark (c : Char) (taken : List Char) {token : Token} (hc : BeginsMark c)
    (hmark : markToken? c (taken ++ rest) = some (token, taken.length)) :
    Scanned (c :: taken) token rest :=
  ⟨c, taken, rfl, hc.1, by simp [lexeme?, hc.2.1, hc.2.2.1, hc.2.2.2, hmark]⟩

/-- The character that makes another mark of the symbol. -/
def continuation? : Symbol → Option Char
  | .dot => some '.'
  | .colon => some ':'
  | .assign => some '>'
  | _ => none

theorem markToken?_short {c d : Char} {s : Symbol}
    (hs : (c, d, s) ∈ [('.', '.', Symbol.dot), (':', ':', .colon), ('=', '>', .assign)])
    (h : rest.head? ≠ some d) : markToken? c rest = some (.symbol s, 0) := by
  simp only [List.mem_cons, Prod.mk.injEq, List.not_mem_nil, or_false] at hs
  rcases hs with ⟨rfl, rfl, rfl⟩ | ⟨rfl, rfl, rfl⟩ | ⟨rfl, rfl, rfl⟩
  all_goals
    unfold markToken?
    split <;> simp_all

theorem scanned_symbol (s : Symbol) (hrest : ∀ c ∈ continuation? s, rest.head? ≠ some c) :
    Scanned s.spelling.toList (.symbol s) rest := by
  cases s with
  | openBrace => exact scanned_mark '\x7b' [] (by decide) rfl
  | closeBrace => exact scanned_mark '\x7d' [] (by decide) rfl
  | openParen => exact scanned_mark '(' [] (by decide) rfl
  | closeParen => exact scanned_mark ')' [] (by decide) rfl
  | comma => exact scanned_mark ',' [] (by decide) rfl
  | colon => exact scanned_mark ':' [] (by decide) (markToken?_short (by decide) (hrest _ rfl))
  | pathSeparator => exact scanned_mark ':' [':'] (by decide) rfl
  | dot => exact scanned_mark '.' [] (by decide) (markToken?_short (by decide) (hrest _ rfl))
  | semicolon => exact scanned_mark ';' [] (by decide) rfl
  | assign => exact scanned_mark '=' [] (by decide) (markToken?_short (by decide) (hrest _ rfl))
  | arrow => exact scanned_mark '=' ['>'] (by decide) rfl
  | bar => exact scanned_mark '|' [] (by decide) rfl
  | ampersand => exact scanned_mark '&' [] (by decide) rfl
  | plus => exact scanned_mark '+' [] (by decide) rfl
  | minus => exact scanned_mark '-' [] (by decide) rfl
  | star => exact scanned_mark '*' [] (by decide) rfl

theorem Scans.symbol (h : Scans rest tokens) (s : Symbol)
    (hrest : ∀ c ∈ continuation? s, rest.head? ≠ some c) :
    Scans (s.spelling.toList ++ rest) (.symbol s :: tokens) :=
  h.scanned (scanned_symbol s hrest)

theorem markToken?_maxInclusive (h : rest.head? ≠ some '<') :
    markToken? '.' ('.' :: rest) = some (.range ⟨true, true⟩, 1) ∧
      markToken? '<' ('.' :: '.' :: rest) = some (.range ⟨false, true⟩, 2) := by
  constructor
  all_goals
    unfold markToken?
    split <;> simp_all

theorem scanned_rangeMark (mark : RangeMark)
    (hrest : mark.maxInclusive = true → rest.head? ≠ some '<') :
    Scanned mark.spelling.toList (.range mark) rest := by
  obtain ⟨minInclusive, maxInclusive⟩ := mark
  cases minInclusive with
  | true =>
    cases maxInclusive with
    | true => exact scanned_mark '.' ['.'] (by decide) (markToken?_maxInclusive (hrest rfl)).1
    | false => exact scanned_mark '.' ['.', '<'] (by decide) rfl
  | false =>
    cases maxInclusive with
    | true => exact scanned_mark '<' ['.', '.'] (by decide) (markToken?_maxInclusive (hrest rfl)).2
    | false => exact scanned_mark '<' ['.', '.', '<'] (by decide) rfl

theorem Scans.rangeMark (h : Scans rest tokens) (mark : RangeMark)
    (hrest : mark.maxInclusive = true → rest.head? ≠ some '<') :
    Scans (mark.spelling.toList ++ rest) (.range mark :: tokens) :=
  h.scanned (scanned_rangeMark mark hrest)

end Marks

section Quotes

/-- A body that is closed by the quote behind it. -/
theorem scanned_text {body value rest : List Char}
    (h : textBody 1 (body ++ '"' :: rest) = .ok (value, body.length + 1 + 1)) :
    Scanned ('"' :: (body ++ ['"'])) (.text (String.ofList value)) rest := by
  refine ⟨'"', body ++ ['"'], rfl, by decide, ?_⟩
  simp [lexeme?, h, Except.map]

/-- Quoting uses no escape for the text that scanning does not know. -/
def Quotable (s : String) : Prop := ∀ c ∈ s.toList, Text.isShown c = true ∨ c = '\n' ∨ c = '\t'

theorem escapeChar_of_isShown {c : Char} (h : Text.isShown c = true) (hquote : c ≠ '"')
    (hbackslash : c ≠ '\\') : Text.escapeChar c = [c] := by
  unfold Text.escapeChar
  split
  case h_7 => rw [if_pos h]
  case h_5 | h_6 => contradiction
  all_goals exact absurd h (by decide)

theorem textBody_escapeChar {c : Char} (h : Text.isShown c = true ∨ c = '\n' ∨ c = '\t') (taken : Nat)
    (cs : List Char) : textBody taken (Text.escapeChar c ++ cs) =
      (textBody (taken + (Text.escapeChar c).length) cs).map fun (body, n) => (c :: body, n) := by
  by_cases hspecial : c ∈ ['\n', '\t', '"', '\\']
  · simp only [List.mem_cons, List.not_mem_nil, or_false] at hspecial
    rcases hspecial with rfl | rfl | rfl | rfl <;> rfl
  · simp only [List.mem_cons, List.not_mem_nil, or_false, not_or] at hspecial
    obtain ⟨hnewline, htab, hquote, hbackslash⟩ := hspecial
    have hshown : Text.isShown c = true := by simpa [hnewline, htab] using h
    rw [escapeChar_of_isShown hshown hquote hbackslash, List.singleton_append, textBody]
    · rfl
    all_goals simp_all

theorem textBody_quoted {s : List Char} (h : ∀ c ∈ s, Text.isShown c = true ∨ c = '\n' ∨ c = '\t')
    (taken : Nat) (rest : List Char) : textBody taken (s.flatMap Text.escapeChar ++ '"' :: rest) =
      .ok (s, taken + (s.flatMap Text.escapeChar).length + 1) := by
  induction s generalizing taken with
  | nil => rfl
  | cons c s ih =>
    obtain ⟨hc, hs⟩ := List.forall_mem_cons.1 h
    rw [List.flatMap_cons, List.append_assoc, textBody_escapeChar hc, ih hs]
    simp [Except.map, Nat.add_assoc]

theorem Scans.quoted {rest : List Char} {tokens : List Token} (h : Scans rest tokens) {s : String}
    (hs : Quotable s) : Scans ((Text.quote s).toList ++ rest) (.text s :: tokens) := by
  have hlist : (Text.quote s).toList = '"' :: (s.toList.flatMap Text.escapeChar ++ ['"']) := by
    simp [Text.quote]
  have hbody := textBody_quoted hs 1 rest
  rw [Nat.add_comm 1] at hbody
  have hscanned := scanned_text hbody
  rw [String.ofList_toList] at hscanned
  rw [hlist]
  exact h.scanned hscanned

end Quotes

end Source

end TypedFlow
