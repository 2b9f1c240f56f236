import Mathlib.Data.List.Forall2
import TypedFlow.Expr.Text
import TypedFlow.Proofs.Scope.Lookup
import TypedFlow.Proofs.Source.Numerals

/-!
# The tokens of expression texts

The text of an expression is scanned as the tokens that follow its shape, where its numbers are
finite and its quoted texts need no escape but those that scanning knows.
-/
namespace TypedFlow
open Source

/-- The tokens that show a number; the sign of a zero is not shown. -/
def Number.tokens : Number → List Token
  | .finite negative x =>
    (if showsSign (.finite negative x) then [.symbol .minus] else []) ++ [.number (.finite false x)]
  | _ => []

namespace RangeLiteral

def mark (r : RangeLiteral) : RangeMark := ⟨r.minInclusive, r.maxInclusive⟩

def tokens (r : RangeLiteral) : List Token :=
  r.min.elim [] Number.tokens ++ .range r.mark :: r.max.elim [] Number.tokens

end RangeLiteral

def BinaryOp.mark : BinaryOp → Symbol
  | .union => .bar
  | .intersection => .ampersand
  | .add => .plus
  | .subtract => .minus
  | .multiply => .star

namespace Expr

/-- Tokens in parentheses if what they show binds less tightly than its place needs. -/
def placed (precedence least : Nat) (tokens : List Token) : List Token :=
  if precedence < least then .symbol .openParen :: (tokens ++ [.symbol .closeParen]) else tokens

def commas (items : List (List Token)) : List Token := [Token.symbol .comma].intercalate items

def pathTokens (owner member : String) : List Token :=
  [.word owner, .symbol .pathSeparator, .word member]

/-- A function is shown by its name, which may be a path. -/
def functionTokens (function : String) : List Token :=
  match Scope.pathParts? function with
  | some (owner, member) => pathTokens owner member
  | none => [.word function]

def armTokens (pattern : List Token) (binding : Option String) (body : List Token) : List Token :=
  pattern ++ (binding.elim [] fun n => [.word "as", .word n]) ++ .symbol .arrow :: body

mutual

/-- The tokens of the text of an expression. -/
def tokens : Expr → List Token
  | .number value => value.tokens
  | .string value => [.text value]
  | .range r => r.tokens
  | .name n => [.word n]
  | .path owner member => pathTokens owner member
  | .field target n => placed target.precedence 6 (tokens target) ++ [.symbol .dot, .word n]
  | .call function args =>
    functionTokens function ++ .symbol .openParen :: (commas (tokensAll args) ++ [.symbol .closeParen])
  | .record n fields =>
    .word n :: .symbol .openBrace :: (commas (tokensFields fields) ++ [.symbol .closeBrace])
  | .binary op left right =>
    placed left.precedence op.precedence (tokens left) ++ .symbol op.mark ::
      placed right.precedence (op.precedence + 1) (tokens right)
  | .negate operand => .symbol .minus :: placed operand.precedence 5 (tokens operand)
  | .select scrutinee arms =>
    .word "match" :: (placed scrutinee.precedence 1 (tokens scrutinee) ++
      .symbol .openBrace :: (commas (tokensArms arms) ++ [.symbol .closeBrace]))

def tokensAll : List Expr → List (List Token)
  | [] => []
  | e :: exprs => tokens e :: tokensAll exprs

def tokensFields : List (String × Expr) → List (List Token)
  | [] => []
  | (n, e) :: fields => (.word n :: .symbol .colon :: tokens e) :: tokensFields fields

def tokensArms : List (MatchArm Expr) → List (List Token)
  | [] => []
  | ⟨none, binding, body⟩ :: arms => armTokens [.word "_"] binding (tokens body) :: tokensArms arms
  | ⟨some pattern, binding, body⟩ :: arms =>
    armTokens (tokens pattern) binding (tokens body) :: tokensArms arms

end

end Expr

section Shows

/-- Before a boundary the text is scanned as the tokens. -/
def Shows (text : String) (tokens : List Token) : Prop :=
  ∀ rest following, Boundary rest → Scans rest following →
    Scans (text.toList ++ rest) (tokens ++ following)

theorem Shows.scans {text : String} {tokens : List Token} (h : Shows text tokens) :
    Scans text.toList tokens := by
  simpa using h [] [] boundary_nil scans_nil

theorem shows_word {w : String} (hw : IsWord w) : Shows w [.word w] :=
  fun _ _ hrest h => h.word hw fun c hc => (hrest.head c hc).1

theorem shows_quoted {s : String} (hs : Quotable s) : Shows (Text.quote s) [.text s] :=
  fun _ _ _ h => h.quoted hs

theorem scans_display {a : Number} (ha : a.isFinite = true) {rest : List Char}
    {following : List Token} (hrest : EndsNumber rest) (h : Scans rest following) :
    Scans (a.display.toList ++ rest) (a.tokens ++ following) := by
  cases a with
  | nan => cases ha
  | infinite negative => cases ha
  | finite negative x =>
    rw [Number.display_finite, Number.tokens]
    split
    · rw [String.toList_append, List.append_assoc]
      exact (h.numeral hrest x).symbol .minus fun _ hc => by cases hc
    · simpa using h.numeral hrest x

theorem display_not_less {a : Number} (ha : a.isFinite = true) (rest : List Char) :
    (a.display.toList ++ rest).head? ≠ some '<' := by
  cases a with
  | nan => cases ha
  | infinite negative => cases ha
  | finite negative x =>
    obtain ⟨d, hchars, -⟩ := exists_digits_numeral x
    rw [Number.display_finite, String.toList_append, hchars]
    split
    · simp
    · have hdigit := d.areDigits d.first (by simp)
      simp only [String.toList_empty, List.nil_append, Digits.chars, List.cons_append,
        List.head?_cons, ne_eq, Option.some.injEq]
      rintro heq
      rw [heq] at hdigit
      cases hdigit

theorem shows_display {a : Number} (ha : a.isFinite = true) : Shows a.display a.tokens :=
  fun _ _ hrest h => scans_display ha hrest.endsNumber h

theorem RangeLiteral.text_eq {r : RangeLiteral} (h : r.WellFormed) :
    r.text = r.min.elim "" Number.display ++ r.mark.spelling ++ r.max.elim "" Number.display := by
  obtain ⟨min, max, minInclusive, maxInclusive⟩ := r
  obtain ⟨hmin, hmax⟩ := h
  cases min with
  | none =>
    obtain rfl : minInclusive = true := hmin rfl
    cases max with
    | none =>
      obtain rfl : maxInclusive = true := hmax rfl
      rfl
    | some max => cases maxInclusive <;> rfl
  | some min =>
    cases max with
    | none =>
      obtain rfl : maxInclusive = true := hmax rfl
      simp only [RangeLiteral.text, RangeLiteral.mark, RangeMark.spelling, Option.elim_some,
        Option.elim_none, String.append_assoc]
      rfl
    | some max =>
      simp only [RangeLiteral.text, RangeLiteral.mark, RangeMark.spelling, Option.elim_some,
        String.append_assoc]
      rfl

/-- The ends of the range are finite. -/
def RangeLiteral.Finite (r : RangeLiteral) : Prop :=
  (∀ a ∈ r.min, a.isFinite = true) ∧ ∀ a ∈ r.max, a.isFinite = true

/-- A range mark and an upper end. -/
theorem scans_rangeEnd (mark : RangeMark) {max : Option Number} (hmax : ∀ a ∈ max, a.isFinite = true)
    {rest : List Char} {following : List Token} (hrest : Boundary rest) (h : Scans rest following) :
    Scans ((mark.spelling ++ max.elim "" Number.display).toList ++ rest)
      (.range mark :: max.elim [] Number.tokens ++ following) := by
  rw [String.toList_append, List.append_assoc]
  cases max with
  | none => exact h.rangeMark mark fun _ hless => (hrest.head '<' hless).2 rfl
  | some a =>
    exact (scans_display (hmax a rfl) hrest.endsNumber h).rangeMark mark
      fun _ => display_not_less (hmax a rfl) rest

theorem endsNumber_mark (mark : RangeMark) (rest : List Char) :
    EndsNumber (mark.spelling.toList ++ rest) := by
  obtain ⟨minInclusive, maxInclusive⟩ := mark
  cases minInclusive with
  | false => constructor <;> simp [RangeMark.spelling, fractionDigits]
  | true => constructor <;> simp [RangeMark.spelling, fractionDigits]

theorem shows_range {r : RangeLiteral} (hwell : r.WellFormed) (hfinite : r.Finite) :
    Shows r.text r.tokens := by
  intro rest following hrest h
  rw [RangeLiteral.text_eq hwell, RangeLiteral.tokens, String.append_assoc, String.toList_append,
    List.append_assoc, List.append_assoc]
  have hend := scans_rangeEnd r.mark hfinite.2 hrest h
  cases hmin : r.min with
  | none => exact hend
  | some a =>
    refine scans_display (hfinite.1 a hmin) ?_ hend
    rw [String.toList_append, List.append_assoc]
    exact endsNumber_mark r.mark _

theorem shows_symbol (s : Symbol) (hs : continuation? s = none) : Shows s.spelling [.symbol s] :=
  fun _ _ _ h => h.symbol s fun _ hc => by simp [hs] at hc

theorem shows_nil : Shows "" [] := fun _ _ _ h => h

variable {text text' : String} {tokens tokens' : List Token}

theorem Shows.spaced (h : Shows text tokens) (h' : Shows text' tokens') :
    Shows (text ++ " " ++ text') (tokens ++ tokens') := by
  intro rest following hrest hscans
  simp only [String.toList_append, List.append_assoc]
  exact h _ _ (boundary_space _) (h' _ _ hrest hscans).space

theorem Shows.field (h : Shows text tokens) {n : String} (hn : IsWord n) :
    Shows (text ++ "." ++ n) (tokens ++ [.symbol .dot, .word n]) := by
  intro rest following hrest hscans
  simp only [String.toList_append, List.append_assoc]
  refine h _ _ (boundary_point hn rest) ((shows_word hn _ _ hrest hscans).symbol .dot ?_)
  obtain ⟨c, part, rfl, hc, -⟩ := hn
  intro d hd
  cases hd
  rw [String.toList_ofList]
  rintro ⟨rfl⟩
  exact absurd hc (by decide)

theorem Shows.parenthesized (h : Shows text tokens) :
    Shows ("(" ++ text ++ ")") (.symbol .openParen :: (tokens ++ [.symbol .closeParen])) := by
  intro rest following hrest hscans
  have hclose := hscans.symbol .closeParen fun _ hc => by cases hc
  have hinner := h _ _ (boundary_cons (by decide) rest) hclose
  simp only [String.toList_append, List.append_assoc, List.cons_append]
  exact hinner.symbol .openParen fun _ hc => by cases hc

theorem Shows.applied (h : Shows text tokens) (h' : Shows text' tokens') :
    Shows (text ++ "(" ++ text' ++ ")")
      (tokens ++ .symbol .openParen :: (tokens' ++ [.symbol .closeParen])) := by
  intro rest following hrest hscans
  have hargs := h'.parenthesized rest following hrest hscans
  simp only [String.toList_append, List.append_assoc] at hargs ⊢
  exact h _ _ (boundary_cons (by decide) _) hargs

theorem Shows.negated (h : Shows text tokens) : Shows ("-" ++ text) (.symbol .minus :: tokens) := by
  intro rest following hrest hscans
  rw [String.toList_append, List.append_assoc]
  exact (h _ _ hrest hscans).symbol .minus fun _ hc => by cases hc

theorem Shows.labelled (h : Shows text tokens) {n : String} (hn : IsWord n) :
    Shows (n ++ ": " ++ text) (.word n :: .symbol .colon :: tokens) := by
  intro rest following hrest hscans
  simp only [String.toList_append, List.append_assoc]
  refine (((h _ _ hrest hscans).space).symbol .colon ?_).word hn ?_
  · intro d hd
    cases hd
    simp
  · intro d hd
    cases hd
    decide

theorem shows_path {owner member : String} (ho : IsWord owner) (hm : IsWord member) :
    Shows (pathName owner member) (Expr.pathTokens owner member) := by
  intro rest following hrest hscans
  simp only [pathName, String.toList_append, List.append_assoc]
  refine ((shows_word hm _ _ hrest hscans).symbol .pathSeparator ?_).word ho ?_
  · intro d hd
    cases hd
  · intro d hd
    cases hd
    decide

theorem shows_commas {texts : List String} {lists : List (List Token)}
    (h : List.Forall₂ Shows texts lists) : Shows (", ".intercalate texts) (Expr.commas lists) := by
  induction h with
  | nil => exact shows_nil
  | @cons text tokens texts lists hfirst hothers ih =>
    cases hothers with
    | nil => simpa [Expr.commas] using hfirst
    | @cons text' tokens' texts lists hsecond hothers =>
      intro rest following hrest hscans
      have hnext := ((ih _ _ hrest hscans).space).symbol .comma fun _ hc => by cases hc
      have hboth := hfirst _ _ (boundary_cons (by decide) _) hnext
      simp only [String.intercalate_cons_cons, Expr.commas, List.intercalate_cons_cons,
        String.toList_append, List.append_assoc] at hboth ⊢
      exact hboth

theorem Shows.braced {parts : List String} (h : Shows (", ".intercalate parts) tokens) :
    Shows (Expr.braces parts) (.symbol .openBrace :: (tokens ++ [.symbol .closeBrace])) := by
  intro rest following hrest hscans
  have hclose := (hscans.symbol .closeBrace fun _ hc => by cases hc).space
  have hinner := (h _ _ (boundary_space _) hclose).space
  simp only [Expr.braces, String.toList_append, List.append_assoc, List.cons_append]
  exact hinner.symbol .openBrace fun _ hc => by cases hc

end Shows

namespace Expr

theorem shows_placed {text : String} {tokens : List Token} (h : Shows text tokens)
    (precedence least : Nat) :
    Shows (parenthesized precedence least text) (placed precedence least tokens) := by
  unfold parenthesized placed
  split
  · exact h.parenthesized
  · exact h

theorem functionTokens_of_isName {n : String} (hn : IsName n) : functionTokens n = [.word n] := by
  rw [functionTokens, Scope.pathParts?_of_isWord hn.isWord]

theorem functionTokens_pathName {owner : String} (ho : IsName owner) (member : String) :
    functionTokens (pathName owner member) = pathTokens owner member := by
  rw [functionTokens, Scope.pathParts?_pathName ho.isWord]

theorem shows_function {function : String} (h : IsFunctionName function) :
    Shows function (functionTokens function) := by
  rcases h with hname | ⟨owner, member, ho, hm, rfl⟩
  · rw [functionTokens_of_isName hname]
    exact shows_word hname.isWord
  · rw [functionTokens_pathName ho]
    exact shows_path ho.isWord hm.isWord

theorem shows_operator (op : BinaryOp) : Shows op.symbol [.symbol op.mark] := by
  cases op with
  | union => exact shows_symbol .bar rfl
  | intersection => exact shows_symbol .ampersand rfl
  | add => exact shows_symbol .plus rfl
  | subtract => exact shows_symbol .minus rfl
  | multiply => exact shows_symbol .star rfl

theorem shows_binary (op : BinaryOp) {left right : Expr} (hl : Shows left.text left.tokens)
    (hr : Shows right.text right.tokens) :
    Shows (text (.binary op left right)) (tokens (.binary op left right)) := by
  have hleft := shows_placed hl left.precedence op.precedence
  have hright := shows_placed hr right.precedence (op.precedence + 1)
  simpa [text, tokens] using (hleft.spaced (shows_operator op)).spaced hright

theorem shows_negate {operand : Expr} (h : Shows operand.text operand.tokens) :
    Shows (text (.negate operand)) (tokens (.negate operand)) :=
  (shows_placed h _ _).negated

theorem shows_arm {pattern body : String} {patternTokens bodyTokens : List Token}
    (hpattern : Shows pattern patternTokens) {binding : Option String}
    (hbinding : ∀ n ∈ binding, IsName n) (hbody : Shows body bodyTokens) :
    Shows (armText pattern binding body) (armTokens patternTokens binding bodyTokens) := by
  have harrow := (shows_symbol .arrow rfl).spaced hbody
  cases binding with
  | none =>
    have htext : armText pattern none body = pattern ++ " " ++ ("=>" ++ " " ++ body) := by
      simp [armText, ← String.toList_inj]
    have htokens : armTokens patternTokens none bodyTokens =
        patternTokens ++ ([.symbol .arrow] ++ bodyTokens) := by
      simp [armTokens]
    rw [htext, htokens]
    exact hpattern.spaced harrow
  | some n =>
    have has : IsWord "as" := isWord_ofList (by decide)
    have hbound := (shows_word has).spaced (shows_word (hbinding n rfl).isWord)
    have htext : armText pattern (some n) body =
        pattern ++ " " ++ ("as" ++ " " ++ n) ++ " " ++ ("=>" ++ " " ++ body) := by
      simp [armText, ← String.toList_inj]
    have htokens : armTokens patternTokens (some n) bodyTokens =
        patternTokens ++ ([.word "as"] ++ [.word n]) ++ ([.symbol .arrow] ++ bodyTokens) := by
      simp [armTokens]
    rw [htext, htokens]
    exact (hpattern.spaced hbound).spaced harrow

end Expr

end TypedFlow
