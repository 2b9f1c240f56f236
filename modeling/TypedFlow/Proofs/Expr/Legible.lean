import TypedFlow.Proofs.Expr.Tokens

/-!
# Legible expressions

An expression is legible if its text shows it: its numbers and quoted texts can be read back, and
nothing in the text takes what is next to it for its own. That happens with a sign before a number,
an access after a negative number, a minus and a number after a range without an upper end, and a
record where a match expects its arms. Reading a text takes levels, which the text may not exceed.
-/
namespace TypedFlow
open Source

/-- The token can begin an expression. -/
def Token.Begins : Token → Prop
  | .word w => w ≠ "_"
  | .symbol s => s = .minus ∨ s = .openParen
  | _ => True

def BeginsWithNumber (tokens : List Token) : Prop := ∃ a, tokens.head? = some (.number a)

def BeginsWithMinus (tokens : List Token) : Prop := tokens.head? = some (.symbol .minus)

def EndsInRange (tokens : List Token) : Prop := ∃ mark, tokens.getLast? = some (.range mark)

namespace Expr

/-- The tokens of an expression at a place that needs the given precedence at least. -/
def tokensAt (e : Expr) (least : Nat) : List Token := placed e.precedence least e.tokens

/-- A record stands in the text outside of all parentheses. -/
def showsRecord : Expr → Bool
  | .number _ | .string _ | .range _ | .name _ | .path _ _ | .call _ _ | .select _ _ => false
  | .record _ _ => true
  | .field target _ => 6 ≤ target.precedence && showsRecord target
  | .binary op left right =>
    (op.precedence ≤ left.precedence && showsRecord left) ||
      (op.precedence < right.precedence && showsRecord right)
  | .negate operand => 5 ≤ operand.precedence && showsRecord operand

mutual

def Legible : Expr → Prop
  | .number value => value.isFinite = true
  | .string value => Quotable value
  | .range r => r.Finite
  | .name _ | .path _ _ => True
  | .field target _ => Legible target ∧ ¬ BeginsWithMinus (target.tokensAt 6)
  | .call _ args => LegibleAll args
  | .record _ fields => LegibleFields fields
  | .binary op left right => Legible left ∧ Legible right ∧
    ¬ (op = .subtract ∧ EndsInRange (left.tokensAt 3) ∧ BeginsWithNumber (right.tokensAt 4))
  | .negate operand => Legible operand ∧ ¬ BeginsWithNumber (operand.tokensAt 5)
  | .select scrutinee arms => Legible scrutinee ∧
    (1 ≤ scrutinee.precedence → scrutinee.showsRecord = false) ∧ LegibleArms arms

def LegibleAll : List Expr → Prop
  | [] => True
  | e :: exprs => Legible e ∧ LegibleAll exprs

def LegibleFields : List (String × Expr) → Prop
  | [] => True
  | (_, e) :: fields => Legible e ∧ LegibleFields fields

def LegibleArms : List (MatchArm Expr) → Prop
  | [] => True
  | ⟨none, _, body⟩ :: arms => Legible body ∧ LegibleArms arms
  | ⟨some pattern, _, body⟩ :: arms => Legible pattern ∧ Legible body ∧ LegibleArms arms

end

/-- One level down, if any is left. -/
def down : Nat → Option Nat
  | 0 => none
  | k + 1 => some k

/-- The levels used one level further in are given back. -/
def nestedLevels (inside : Nat → Option Nat) (k : Nat) : Option Nat :=
  ((down k).bind inside).map fun _ => k

def placedLevels (precedence least : Nat) (levels : Nat → Option Nat) : Nat → Option Nat :=
  if precedence < least then nestedLevels levels else levels

mutual

/-- The levels that reading the text leaves, of those that were left before, if they are enough. -/
def levelsLeft : Expr → Nat → Option Nat
  | .number _ | .string _ | .range _ | .name _ | .path _ _ => some
  | .field target _ => fun k =>
    (placedLevels target.precedence 6 (levelsLeft target) k).bind down
  | .call _ args => levelsAll args
  | .record _ fields => levelsFields fields
  | .binary op left right => fun k =>
    ((placedLevels left.precedence op.precedence (levelsLeft left) k).bind down).bind
      (placedLevels right.precedence (op.precedence + 1) (levelsLeft right))
  | .negate operand => fun k =>
    (down k).bind (placedLevels operand.precedence 5 (levelsLeft operand))
  | .select scrutinee arms => fun k =>
    (nestedLevels (placedLevels scrutinee.precedence 1 (levelsLeft scrutinee)) k).bind
      (levelsArms arms)

def levelsAll : List Expr → Nat → Option Nat
  | [] => some
  | e :: exprs => fun k => (nestedLevels (levelsLeft e) k).bind (levelsAll exprs)

def levelsFields : List (String × Expr) → Nat → Option Nat
  | [] => some
  | (_, e) :: fields => fun k => (nestedLevels (levelsLeft e) k).bind (levelsFields fields)

def levelsArms : List (MatchArm Expr) → Nat → Option Nat
  | [] => some
  | ⟨none, _, body⟩ :: arms => fun k =>
    (nestedLevels (levelsLeft body) k).bind (levelsArms arms)
  | ⟨some pattern, _, body⟩ :: arms => fun k =>
    ((nestedLevels (levelsLeft pattern) k).bind (nestedLevels (levelsLeft body))).bind
      (levelsArms arms)

end

/-- The expression has no other expression in it. -/
def isLeaf : Expr → Bool
  | .number _ | .string _ | .range _ | .name _ | .path _ _ => true
  | _ => false

theorem levelsLeft_leaf {e : Expr} (h : e.isLeaf = true) : e.levelsLeft = some := by
  cases e with
  | number _ | string _ | range _ | name _ | path _ _ => rw [levelsLeft]
  | _ => cases h

/-- The text nests no deeper than is read. -/
def WithinNesting (e : Expr) : Prop := (nestedLevels e.levelsLeft maxNesting).isSome

section Text

mutual

/-- The text of a legible expression is scanned as its tokens. -/
theorem shows_text : (e : Expr) → e.WellFormed → e.Legible → Shows e.text e.tokens
  | .number _, _, hl => shows_display hl
  | .string _, _, hl => shows_quoted hl
  | .range _, hw, hl => shows_range hw hl
  | .name _, hw, _ => shows_word hw.isWord
  | .path _ _, hw, _ => shows_path hw.1.isWord hw.2.isWord
  | .field target _, hw, hl =>
    (shows_placed (shows_text target hw.1 hl.1) _ _).field hw.2.isWord
  | .call _ args, hw, hl =>
    (shows_function hw.1).applied (shows_commas (shows_texts args hw.2 hl))
  | .record _ fields, hw, hl =>
    (shows_word hw.1.isWord).spaced (shows_commas (shows_fieldTexts fields hw.2 hl)).braced
  | .binary op left right, hw, hl =>
    shows_binary op (shows_text left hw.1 hl.1) (shows_text right hw.2 hl.2.1)
  | .negate operand, hw, hl => shows_negate (shows_text operand hw hl.1)
  | .select scrutinee arms, hw, hl => by
    have hmatch : IsWord "match" := isWord_ofList (by decide)
    have hscrutinee := shows_placed (shows_text scrutinee hw.1 hl.1) scrutinee.precedence 1
    have harms := (shows_commas (shows_armTexts arms hw.2.2 hl.2.2)).braced
    have htext : (Expr.select scrutinee arms).text = "match" ++ " " ++
        parenthesized scrutinee.precedence 1 scrutinee.text ++ " " ++ braces (armTexts arms) := by
      simp [text]
    rw [htext]
    simpa [tokens] using ((shows_word hmatch).spaced hscrutinee).spaced harms

theorem shows_texts : (args : List Expr) → WellFormedAll args → LegibleAll args →
    List.Forall₂ Shows (texts args) (tokensAll args)
  | [], _, _ => .nil
  | e :: exprs, hw, hl => .cons (shows_text e hw.1 hl.1) (shows_texts exprs hw.2 hl.2)

theorem shows_fieldTexts : (fields : List (String × Expr)) → WellFormedFields fields →
    LegibleFields fields → List.Forall₂ Shows (fieldTexts fields) (tokensFields fields)
  | [], _, _ => .nil
  | (_, e) :: fields, hw, hl =>
    .cons ((shows_text e hw.2.1 hl.1).labelled hw.1.isWord) (shows_fieldTexts fields hw.2.2 hl.2)

theorem shows_armTexts : (arms : List (MatchArm Expr)) → WellFormedArms arms → LegibleArms arms →
    List.Forall₂ Shows (armTexts arms) (tokensArms arms)
  | [], _, _ => .nil
  | ⟨none, _, body⟩ :: arms, hw, hl =>
    .cons (shows_arm (shows_word (isWord_ofList (by decide))) hw.1
      (shows_text body hw.2.1 hl.1)) (shows_armTexts arms hw.2.2 hl.2)
  | ⟨some pattern, _, body⟩ :: arms, hw, hl =>
    .cons (shows_arm (shows_text pattern hw.1 hl.1) hw.2.1 (shows_text body hw.2.2.1 hl.2.1))
      (shows_armTexts arms hw.2.2.2 hl.2.2)

end

end Text

section Heads

theorem exists_head_placed {tokens : List Token} (h : ∃ t, tokens.head? = some t ∧ t.Begins)
    (precedence least : Nat) : ∃ t, (placed precedence least tokens).head? = some t ∧ t.Begins := by
  unfold placed
  split
  · exact ⟨_, rfl, .inr rfl⟩
  · exact h

theorem exists_head_append {front : List Token} (h : ∃ t, front.head? = some t ∧ t.Begins)
    (rest : List Token) : ∃ t, (front ++ rest).head? = some t ∧ t.Begins := by
  obtain ⟨t, ht, hbegins⟩ := h
  exact ⟨t, by simp [List.head?_append, ht], hbegins⟩

theorem begins_word {n : String} (h : IsName n) : (Token.word n).Begins := by
  rintro rfl
  exact h.not_keyword (by decide)

theorem exists_head_number {a : Number} (h : a.isFinite = true) :
    ∃ t, a.tokens.head? = some t ∧ t.Begins := by
  cases a with
  | nan => cases h
  | infinite negative => cases h
  | finite negative m =>
    rw [Number.tokens]
    cases Number.showsSign (.finite negative m) with
    | true => exact ⟨_, rfl, .inl rfl⟩
    | false => exact ⟨_, rfl, trivial⟩

theorem exists_head_function {function : String} (h : IsFunctionName function) :
    ∃ t, (functionTokens function).head? = some t ∧ t.Begins := by
  rcases h with hname | ⟨owner, member, ho, hm, rfl⟩
  · rw [functionTokens_of_isName hname]
    exact ⟨_, rfl, begins_word hname⟩
  · rw [functionTokens_pathName ho]
    exact ⟨_, rfl, begins_word ho⟩

/-- The text of an expression begins with one of few tokens. -/
theorem exists_head : (e : Expr) → e.WellFormed → e.Legible →
    ∃ t, e.tokens.head? = some t ∧ t.Begins
  | .number _, _, hl => by
    rw [tokens]
    exact exists_head_number hl
  | .string _, _, _ => by
    rw [tokens]
    exact ⟨_, rfl, trivial⟩
  | .range ⟨none, _, _, _⟩, _, _ => by
    rw [tokens]
    exact ⟨_, rfl, trivial⟩
  | .range ⟨some a, _, _, _⟩, _, hl => by
    rw [tokens]
    exact exists_head_append (exists_head_number (hl.1 a rfl)) _
  | .name _, hw, _ => by
    rw [tokens]
    exact ⟨_, rfl, begins_word hw⟩
  | .path _ _, hw, _ => by
    rw [tokens]
    exact ⟨_, rfl, begins_word hw.1⟩
  | .field target _, hw, hl => by
    rw [tokens]
    exact exists_head_append (exists_head_placed (exists_head target hw.1 hl.1) _ _) _
  | .call _ _, hw, _ => by
    rw [tokens]
    exact exists_head_append (exists_head_function hw.1) _
  | .record _ _, hw, _ => by
    rw [tokens]
    exact ⟨_, rfl, begins_word hw.1⟩
  | .binary _ left _, hw, hl => by
    rw [tokens]
    exact exists_head_append (exists_head_placed (exists_head left hw.1 hl.1) _ _) _
  | .negate _, _, _ => by
    rw [tokens]
    exact ⟨_, rfl, .inl rfl⟩
  | .select _ _, _, _ => by
    rw [tokens]
    exact ⟨_, rfl, by simp [Token.Begins]⟩

theorem tokensAt_ne_nil {e : Expr} (hw : e.WellFormed) (hl : e.Legible) (least : Nat) :
    e.tokensAt least ≠ [] := by
  obtain ⟨t, ht, -⟩ := exists_head_placed (exists_head e hw hl) e.precedence least
  rintro hnil
  rw [tokensAt] at hnil
  rw [hnil] at ht
  cases ht

end Heads

end Expr

section Shown

/-- The number that is shown: a zero has no sign. -/
def Number.shown : Number → Number
  | .finite negative x => .finite (showsSign (.finite negative x)) x
  | a => a

theorem Number.shown_beq {a : Number} (h : a.isFinite = true) : (a.shown == a) = true := by
  cases a with
  | nan => cases h
  | infinite negative => cases h
  | finite negative x =>
    change Number.equal _ _ = true
    cases negative with
    | false => simp [Number.shown, Number.showsSign, Number.equal, Number.position?]
    | true =>
      by_cases hzero : x.units = 0
      · simp [Number.shown, Number.showsSign, Number.equal, Number.position?, Number.signed, hzero]
      · have hne : (x.units != 0) = true := bne_iff_ne.2 hzero
        simp [Number.shown, Number.showsSign, Number.equal, Number.position?, hne]

def RangeLiteral.shown (r : RangeLiteral) : RangeLiteral :=
  ⟨r.min.map Number.shown, r.max.map Number.shown, r.minInclusive, r.maxInclusive⟩

theorem shown_option_beq {end? : Option Number} (h : ∀ a ∈ end?, a.isFinite = true) :
    (end?.map Number.shown == end?) = true := by
  cases end? with
  | none => rfl
  | some a => exact Number.shown_beq (h a rfl)

theorem RangeLiteral.shown_beq {r : RangeLiteral} (h : r.Finite) : (r.shown == r) = true := by
  change (_ && _ && _ && _) = true
  simp only [RangeLiteral.shown, shown_option_beq h.1, shown_option_beq h.2, beq_self_eq_true,
    Bool.and_self]

namespace Expr

mutual

/-- The expression that the text shows. -/
def shown : Expr → Expr
  | .number value => .number value.shown
  | .string value => .string value
  | .range r => .range r.shown
  | .name n => .name n
  | .path owner member => .path owner member
  | .field target n => .field (shown target) n
  | .call function args => .call function (shownAll args)
  | .record n fields => .record n (shownFields fields)
  | .binary op left right => .binary op (shown left) (shown right)
  | .negate operand => .negate (shown operand)
  | .select scrutinee arms => .select (shown scrutinee) (shownArms arms)

def shownAll : List Expr → List Expr
  | [] => []
  | e :: exprs => shown e :: shownAll exprs

def shownFields : List (String × Expr) → List (String × Expr)
  | [] => []
  | (n, e) :: fields => (n, shown e) :: shownFields fields

def shownArms : List (MatchArm Expr) → List (MatchArm Expr)
  | [] => []
  | ⟨none, binding, body⟩ :: arms => ⟨none, binding, shown body⟩ :: shownArms arms
  | ⟨some pattern, binding, body⟩ :: arms =>
    ⟨some (shown pattern), binding, shown body⟩ :: shownArms arms

end

mutual

/-- What a legible text shows is equal to the expression. -/
theorem shown_equal : (e : Expr) → e.Legible → equal e.shown e = true
  | .number _, hl => by
    rw [shown, equal]
    exact Number.shown_beq hl
  | .string _, _ => by simp [shown, equal]
  | .range _, hl => by
    rw [shown, equal]
    exact RangeLiteral.shown_beq hl
  | .name _, _ => by simp [shown, equal]
  | .path _ _, _ => by simp [shown, equal]
  | .field target _, hl => by simp [shown, equal, shown_equal target hl.1]
  | .call _ args, hl => by simp [shown, equal, shownAll_equal args hl]
  | .record _ fields, hl => by simp [shown, equal, shownFields_equal fields hl]
  | .binary _ left right, hl => by
    simp [shown, equal, shown_equal left hl.1, shown_equal right hl.2.1]
  | .negate operand, hl => by simp [shown, equal, shown_equal operand hl.1]
  | .select scrutinee arms, hl => by
    simp [shown, equal, shown_equal scrutinee hl.1, shownArms_equal arms hl.2.2]

theorem shownAll_equal : (args : List Expr) → LegibleAll args → equalAll (shownAll args) args = true
  | [], _ => by simp [shownAll, equalAll]
  | e :: exprs, hl => by simp [shownAll, equalAll, shown_equal e hl.1, shownAll_equal exprs hl.2]

theorem shownFields_equal : (fields : List (String × Expr)) → LegibleFields fields →
    equalFields (shownFields fields) fields = true
  | [], _ => by simp [shownFields, equalFields]
  | (_, e) :: fields, hl => by
    simp [shownFields, equalFields, shown_equal e hl.1, shownFields_equal fields hl.2]

theorem shownArms_equal : (arms : List (MatchArm Expr)) → LegibleArms arms →
    equalArms (shownArms arms) arms = true
  | [], _ => by simp [shownArms, equalArms]
  | ⟨none, _, body⟩ :: arms, hl => by
    simp [shownArms, equalArms, shown_equal body hl.1, shownArms_equal arms hl.2]
  | ⟨some pattern, _, body⟩ :: arms, hl => by
    simp [shownArms, equalArms, shown_equal pattern hl.1, shown_equal body hl.2.1,
      shownArms_equal arms hl.2.2]

end

end Expr

end Shown

end TypedFlow
