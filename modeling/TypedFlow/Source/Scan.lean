import TypedFlow.Source.Error
import TypedFlow.Text.Blank
import TypedFlow.Text.Letter

/-!
# Scanning

A text is split into tokens. Between them stand blanks and comments, which reach from a hash or two
slashes to the end of the line. `lexeme?` looks at a first character and what follows it, and says
how many of the following characters belong to the token; so the rest is always shorter.
-/
namespace TypedFlow.Source

/-- What went wrong inside a token, and how many of its characters had been taken. -/
structure Fault where
  cause : ParseCause
  taken : Nat

def isWordStart (c : Char) : Bool := Text.isLetter c || c == '_'

def isWordPart (c : Char) : Bool := Text.isWordChar c || c == '_'

def digitsValue (digits : List Char) : Nat :=
  digits.foldl (fun n c => n * 10 + (c.toNat - '0'.toNat)) 0

/-- The digits after a point, if `cs` starts with a point and a digit. -/
def fractionDigits : List Char → List Char
  | '.' :: cs => cs.takeWhile Char.isDigit
  | _ => []

/-- A number from its first digit on. A point counts only when a digit follows it. -/
def numberToken (c : Char) (cs : List Char) : Token × Nat :=
  let whole := cs.takeWhile Char.isDigit
  let fraction := fractionDigits (cs.drop whole.length)
  let point := if fraction.isEmpty then 0 else 1
  (.number (.ofDecimal (digitsValue (c :: whole ++ fraction)) fraction.length),
    whole.length + point + fraction.length)

/-- The characters of a quoted text up to its closing quote, of which `taken` precede `cs`, and how
many there are with the quote. -/
def textBody (taken : Nat) : List Char → Except Fault (List Char × Nat)
  | [] => .error ⟨.unterminatedText, taken⟩
  | '"' :: _ => .ok ([], taken + 1)
  | ['\\'] => .error ⟨.unterminatedText, taken + 1⟩
  | '\\' :: c :: cs =>
    match c with
    | 'n' => (textBody (taken + 2) cs).map fun (body, n) => ('\n' :: body, n)
    | 't' => (textBody (taken + 2) cs).map fun (body, n) => ('\t' :: body, n)
    | '"' => (textBody (taken + 2) cs).map fun (body, n) => ('"' :: body, n)
    | '\\' => (textBody (taken + 2) cs).map fun (body, n) => ('\\' :: body, n)
    | c => .error ⟨.unknownEscape c, taken + 2⟩
  | c :: cs => (textBody (taken + 1) cs).map fun (body, n) => (c :: body, n)

/-- The mark that starts with `c`, the longest if there are several. -/
def markToken? (c : Char) (cs : List Char) : Option (Token × Nat) :=
  match c, cs with
  | '<', '.' :: '.' :: '<' :: _ => some (.range ⟨false, false⟩, 3)
  | '<', '.' :: '.' :: _ => some (.range ⟨false, true⟩, 2)
  | '.', '.' :: '<' :: _ => some (.range ⟨true, false⟩, 2)
  | '.', '.' :: _ => some (.range ⟨true, true⟩, 1)
  | '.', _ => some (.symbol .dot, 0)
  | ':', ':' :: _ => some (.symbol .pathSeparator, 1)
  | ':', _ => some (.symbol .colon, 0)
  | '=', '>' :: _ => some (.symbol .arrow, 1)
  | '=', _ => some (.symbol .assign, 0)
  | '\x7b', _ => some (.symbol .openBrace, 0)
  | '\x7d', _ => some (.symbol .closeBrace, 0)
  | '(', _ => some (.symbol .openParen, 0)
  | ')', _ => some (.symbol .closeParen, 0)
  | ',', _ => some (.symbol .comma, 0)
  | ';', _ => some (.symbol .semicolon, 0)
  | '|', _ => some (.symbol .bar, 0)
  | '&', _ => some (.symbol .ampersand, 0)
  | '+', _ => some (.symbol .plus, 0)
  | '-', _ => some (.symbol .minus, 0)
  | '*', _ => some (.symbol .star, 0)
  | _, _ => none

/-- The token that starts with `c`, and how many characters of `cs` belong to it. -/
def lexeme? (c : Char) (cs : List Char) : Except Fault (Token × Nat) :=
  if c.isDigit then .ok (numberToken c cs)
  else if c = '"' then
    (textBody 1 cs).map fun (body, n) => (.text (String.ofList body), n - 1)
  else if isWordStart c then
    let part := cs.takeWhile isWordPart
    .ok (.word (String.ofList (c :: part)), part.length)
  else match markToken? c cs with
    | some mark => .ok mark
    | none => .error ⟨.unexpectedCharacter c, 0⟩

/-- Skips blanks and comments. Inside a comment everything up to the end of the line is skipped. -/
def skipTrivia (inComment : Bool) (p : Position) : List Char → Position × List Char
  | [] => (p, [])
  | c :: cs =>
    if inComment then skipTrivia (c != '\n') (p.step c) cs
    else if Text.isBlank c then skipTrivia false (p.step c) cs
    else if c == '#' || (c == '/' && cs.head? == some '/') then skipTrivia true (p.step c) cs
    else (p, c :: cs)

theorem length_skipTrivia_le (inComment : Bool) (p : Position) (cs : List Char) :
    (skipTrivia inComment p cs).2.length ≤ cs.length := by
  induction cs generalizing inComment p with
  | nil => simp [skipTrivia]
  | cons c cs ih =>
    unfold skipTrivia
    split
    · exact Nat.le_succ_of_le (ih ..)
    · split
      · exact Nat.le_succ_of_le (ih ..)
      · split
        · exact Nat.le_succ_of_le (ih ..)
        · exact Nat.le_refl _

/-- The tokens of a text that starts at `p`. -/
def tokensFrom (p : Position) (cs : List Char) : Except ParseError TokenList :=
  match _h : skipTrivia false p cs with
  | (finish, []) => .ok ⟨[], finish⟩
  | (start, c :: rest) =>
    match lexeme? c rest with
    | .error fault => .error ⟨start.after ((c :: rest).take fault.taken), fault.cause⟩
    | .ok (token, more) => do
      let following ← tokensFrom ((start.step c).after (rest.take more)) (rest.drop more)
      return ⟨⟨token, start⟩ :: following.tokens, following.finish⟩
termination_by cs.length
decreasing_by
  have hle := length_skipTrivia_le false p cs
  simp only [_h, List.length_cons, List.length_drop] at hle ⊢
  omega

def tokenize (source : String) : Except ParseError TokenList := tokensFrom .start source.toList

end TypedFlow.Source
