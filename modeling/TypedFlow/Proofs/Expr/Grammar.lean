import TypedFlow.Proofs.Expr.Legible
import TypedFlow.Proofs.Source.Giving

/-!
# The grammar of expressions

Which tokens stand for which expression at a place. Places are numbered by how tightly they bind: 1
to 4 are those of the binary operators, 5 is that of a sign and 6 that of an access to a field. What
stands at a place stands at every looser one, with parentheses around it at every place.
-/
namespace TypedFlow
open Reader (keywords Listed)

/-- Tokens with the expression for which they stand. -/
structure Phrase where
  tokens : List Token
  value : Expr

/-- The upper end of a range, if there is one, directly behind the operator. -/
inductive UpperEnd : List Token → Option Number → Prop
  | none : UpperEnd [] none
  | number (a : Number) : UpperEnd [.number a] (some a)
  | negative (a : Number) : UpperEnd [.symbol .minus, .number a] (some (-a))

/-- A range from its operator on. Only an end that is there can be excluded. -/
inductive RangeFrom (min : Option Number) : List Token → Expr → Prop
  | mk {mark : RangeMark} {upper : List Token} {max : Option Number} : UpperEnd upper max →
      (max = none → mark.maxInclusive = true) →
      RangeFrom min (.range mark :: upper)
        (.range ⟨min, max, mark.minInclusive, mark.maxInclusive⟩)

/-- A number, or the range that begins with it, behind the token of the number. -/
inductive NumberOrRange (a : Number) : List Token → Expr → Prop
  | number : NumberOrRange a [] (.number a)
  | range {rest : List Token} {e : Expr} : RangeFrom (some a) rest e → NumberOrRange a rest e

/-- What stands for a function: its name or, for that of an owner, its path. -/
inductive Callee : List Token → String → Prop
  | name {n : String} : n ∉ keywords → Callee [.word n] n
  | path {n m : String} : n ∉ keywords → m ∉ keywords →
      Callee [.word n, .symbol .pathSeparator, .word m] (pathName n m)

theorem Callee.exists_head {callee : List Token} {function : String} (h : Callee callee function) :
    ∃ n, callee.head? = some (.word n) ∧ n ∉ keywords := by
  cases h with
  | name hn => exact ⟨_, rfl, hn⟩
  | path hn hm => exact ⟨_, rfl, hn⟩

namespace Phrase

def fieldTokens (f : String × Phrase) : List Token := .word f.1 :: .symbol .colon :: f.2.tokens

def fieldValue (f : String × Phrase) : String × Expr := (f.1, f.2.value)

/-- An underscore stands for no pattern. -/
def armTokens (a : MatchArm Phrase) : List Token :=
  Expr.armTokens (a.pattern.elim [.word "_"] tokens) a.binding a.body.tokens

def armValue (a : MatchArm Phrase) : MatchArm Expr :=
  ⟨a.pattern.map value, a.binding, a.body.value⟩

end Phrase

/-- The tokens stand for the expression at the place; records are allowed outside of parentheses or
not. A minus directly before a number is the sign of the number, and directly behind a range, with a
number next, that of its upper end. -/
inductive Derives : (records : Bool) → (place : Nat) → List Token → Expr → Prop
  | tighter {records : Bool} {place : Nat} {tokens : List Token} {e : Expr} : 1 ≤ place →
      Derives records (place + 1) tokens e → Derives records place tokens e
  | binary {records : Bool} {op : BinaryOp} {left right : List Token} {x y : Expr} :
      Derives records op.precedence left x → Derives records (op.precedence + 1) right y →
      ¬ (op = .subtract ∧ EndsInRange left ∧ BeginsWithNumber right) →
      Derives records op.precedence (left ++ .symbol op.mark :: right) (.binary op x y)
  | negate {records : Bool} {tokens : List Token} {e : Expr} : Derives records 5 tokens e →
      ¬ BeginsWithNumber tokens → Derives records 5 (.symbol .minus :: tokens) (.negate e)
  | negative {records : Bool} {a : Number} {rest : List Token} {e : Expr} :
      NumberOrRange (-a) rest e → Derives records 5 (.symbol .minus :: .number a :: rest) e
  | field {records : Bool} {tokens : List Token} {e : Expr} {n : String} :
      Derives records 6 tokens e → n ∉ keywords →
      Derives records 6 (tokens ++ [.symbol .dot, .word n]) (.field e n)
  | number {records : Bool} {a : Number} {rest : List Token} {e : Expr} :
      NumberOrRange a rest e → Derives records 6 (.number a :: rest) e
  | range {records : Bool} {mark : RangeMark} {rest : List Token} {e : Expr} :
      mark.minInclusive = true → RangeFrom none (.range mark :: rest) e →
      Derives records 6 (.range mark :: rest) e
  | string {records : Bool} (s : String) : Derives records 6 [.text s] (.string s)
  | parenthesized {records : Bool} {tokens : List Token} {e : Expr} : Derives true 1 tokens e →
      Derives records 6 (.symbol .openParen :: (tokens ++ [.symbol .closeParen])) e
  | name {records : Bool} {n : String} : n ∉ keywords → Derives records 6 [.word n] (.name n)
  | path {records : Bool} {n m : String} : n ∉ keywords → m ∉ keywords →
      Derives records 6 [.word n, .symbol .pathSeparator, .word m] (.path n m)
  | call {records : Bool} {callee list : List Token} {function : String} {args : List Phrase} :
      Callee callee function → (∀ p ∈ args, Derives true 1 p.tokens p.value) →
      Listed (args.map Phrase.tokens) list →
      Derives records 6 (callee ++ .symbol .openParen :: (list ++ [.symbol .closeParen]))
        (.call function (args.map Phrase.value))
  | record {list : List Token} {owner : String} {fields : List (String × Phrase)} :
      owner ∉ keywords → (∀ f ∈ fields, f.1 ∉ keywords) →
      (∀ f ∈ fields, Derives true 1 f.2.tokens f.2.value) →
      Listed (fields.map Phrase.fieldTokens) list →
      Derives true 6 (.word owner :: .symbol .openBrace :: (list ++ [.symbol .closeBrace]))
        (.record owner (fields.map Phrase.fieldValue))
  | select {records : Bool} {scrutinee list : List Token} {e : Expr} {arms : List (MatchArm Phrase)} :
      Derives false 1 scrutinee e → arms ≠ [] → (∀ a ∈ arms, ∀ n ∈ a.binding, n ∉ keywords) →
      (∀ a ∈ arms, ∀ p ∈ a.pattern, Derives true 1 p.tokens p.value) →
      (∀ a ∈ arms, Derives true 1 a.body.tokens a.body.value) →
      Listed (arms.map Phrase.armTokens) list →
      Derives records 6
        (.word "match" :: (scrutinee ++ .symbol .openBrace :: (list ++ [.symbol .closeBrace])))
        (.select e (arms.map Phrase.armValue))

end TypedFlow
