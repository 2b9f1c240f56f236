import TypedFlow.Proofs.Expr.Legible
import TypedFlow.Proofs.Source.Giving

/-!
# Places for operands

An operand is read as far as its place goes: a chain of operators, or of accesses, goes on from what
has been read. So what is read at a place is first shown to open the chain of its own precedence,
and then to be read at every looser place, where nothing that follows takes hold of it.
-/
namespace TypedFlow
open Reader

/-- How tightly a token takes hold of an operand before it. -/
def Token.reach : Token → Nat
  | .symbol .bar => 1
  | .symbol .ampersand => 2
  | .symbol .plus | .symbol .minus => 3
  | .symbol .star => 4
  | .symbol .dot => 6
  | .symbol .openParen | .symbol .pathSeparator | .number _ | .range _ => 7
  | _ => 0

/-- What comes next takes hold of nothing that needs the reach or more. -/
structure Follows (records : Bool) (reach : Nat) (front following : List Token) : Prop where
  reach : ∀ t ∈ following.head?, t.reach < reach
  brace : records = true → following.head? ≠ some (.symbol .openBrace)
  sign : EndsInRange front → ∀ a rest, following ≠ .symbol .minus :: .number a :: rest

theorem Follows.mono {records : Bool} {q r : Nat} {front following : List Token}
    (h : Follows records q front following) (hle : q ≤ r) : Follows records r front following :=
  ⟨fun t ht => Nat.lt_of_lt_of_le (h.reach t ht) hle, h.brace, h.sign⟩

theorem follows_end (records : Bool) (q : Nat) (front : List Token) : Follows records q front [] := by
  refine ⟨fun _ h => ?_, fun _ => by simp, fun _ a rest => by simp⟩
  cases h

theorem follows_symbol {s : Symbol} {q : Nat} (hreach : (Token.symbol s).reach < q)
    (hbrace : s ≠ .openBrace) (hminus : s ≠ .minus) (records : Bool) (front rest : List Token) :
    Follows records q front (.symbol s :: rest) := by
  refine ⟨fun t ht => ?_, fun _ => by simpa using hbrace, fun _ a rest' => by simp [hminus]⟩
  cases ht
  exact hreach

theorem follows_word (w : String) {q : Nat} (hq : 0 < q) (records : Bool) (front rest : List Token) :
    Follows records q front (.word w :: rest) := by
  refine ⟨fun t ht => ?_, fun _ => by simp, fun _ a rest' => by simp⟩
  cases ht
  exact hq

theorem Follows.suffix {records : Bool} {q : Nat} {front following : List Token}
    (before : List Token) (h : Follows records q (before ++ front) following) (hne : front ≠ []) :
    Follows records q front following := by
  refine ⟨h.reach, h.brace, fun ⟨mark, hmark⟩ => h.sign ⟨mark, ?_⟩⟩
  rw [List.getLast?_append_of_ne_nil _ hne]
  exact hmark

namespace Expr

section Stages

/-- The operators of a precedence. -/
def operatorAt? : Nat → Symbol → Option BinaryOp
  | 1 => unionOp?
  | 2 => intersectionOp?
  | 3 => sumOp?
  | 4 => productOp?
  | _ => fun _ => none

theorem operatorAt?_mark (op : BinaryOp) : operatorAt? op.precedence op.mark = some op := by
  cases op <;> rfl

theorem operatorAt?_of_reach {q : Nat} {s : Symbol} (h : (Token.symbol s).reach < q) :
    operatorAt? q s = none := by
  unfold operatorAt?
  split
  all_goals
    cases s
    all_goals first | rfl | exact absurd h (by decide)

variable (levels : Nat)

def accessStage : Reader Expr := do accesses levels (← primary (expressionAt levels))

def signStage (signs : Nat) : Reader Expr := signed (accessStage levels) signs

/-- The reader of what stands at a place that needs a precedence at least. -/
def stage : Nat → Reader Expr
  | 1 => operators levels (expressionAt levels)
  | 2 => joined intersectionOp? levels <| joined sumOp? levels <|
    joined productOp? levels (signStage levels levels)
  | 3 => joined sumOp? levels <| joined productOp? levels (signStage levels levels)
  | 4 => joined productOp? levels (signStage levels levels)
  | _ => signStage levels levels

theorem stage_eq {q : Nat} (hone : 1 ≤ q) (hfour : q ≤ 4) :
    stage levels q = joined (operatorAt? q) levels (stage levels (q + 1)) := by
  obtain rfl | rfl | rfl | rfl : q = 1 ∨ q = 2 ∨ q = 3 ∨ q = 4 := by omega
  all_goals rfl

end Stages

section Places
variable {levels : Nat} {context : ReaderContext} {k k' : Nat} {front following : List Token}
  {x : Expr} {q : Nat}

theorem gives_chain_stop (h : ∀ t ∈ following.head?, t.reach < q) (operand : Reader Expr)
    (fuel : Nat) : Gives (chain (operatorAt? q) operand fuel x) context k following x k following := by
  have hstep : ∀ continued, Gives (chainStep (operatorAt? q) operand continued x) context k
      following x k following := by
    intro continued
    refine gives_peek.bind ?_
    cases following with
    | nil => exact gives_pure x
    | cons t rest =>
      cases t with
      | symbol s =>
        rw [List.head?_cons]
        dsimp only
        rw [operatorAt?_of_reach (h _ rfl)]
        exact gives_pure x
      | word w => exact gives_pure x
      | number a => exact gives_pure x
      | text s => exact gives_pure x
      | range mark => exact gives_pure x
  cases fuel <;> exact hstep _

theorem gives_accesses_stop (h : ∀ t ∈ following.head?, t.reach < 6) (fuel : Nat) :
    Gives (accesses fuel x) context k following x k following := by
  have hdot : following.head? ≠ some (.symbol .dot) := fun hdot => absurd (h _ hdot) (by decide)
  have hstep : ∀ continued, Gives (accessStep continued x) context k following x k following :=
    fun _ => (gives_eat_other hdot).bind (gives_pure x)
  cases fuel <;> exact hstep _

variable (levels context k k' front x)

/-- The accesses go on from the expression after its tokens. -/
def OpensAccess : Prop :=
  (∃ t, front.head? = some t ∧ t ≠ .symbol .minus) ∧ ∃ fuel, k' ≤ fuel ∧
    ∀ following, Follows context.records 7 front following → ∀ b k'' rest,
      Gives (accesses fuel x) context k' following b k'' rest →
        Gives (accessStage levels) context k (front ++ following) b k'' rest

/-- The tokens are read as the expression where a sign may stand. -/
def ReadsSign : Prop :=
  ∀ signs, k ≤ signs → ∀ following, Follows context.records 5 front following →
    Gives (signStage levels signs) context k (front ++ following) x k' following

/-- The operators of the precedence go on from the expression after its tokens. -/
def OpensChain (q : Nat) : Prop :=
  ∃ fuel, k' ≤ fuel ∧ ∀ following, Follows context.records (q + 1) front following → ∀ b k'' rest,
    Gives (chain (operatorAt? q) (stage levels (q + 1)) fuel x) context k' following b k'' rest →
      Gives (stage levels q) context k (front ++ following) b k'' rest

/-- The tokens stand for the expression at a place that needs the precedence. -/
def ReadAt (q : Nat) : Prop :=
  k' ≤ k ∧ match q with
    | 6 => OpensAccess levels context k k' front x
    | 5 => ReadsSign levels context k k' front x
    | q => OpensChain levels context k k' front x q

variable {levels context k k' front x}

theorem readAt_chain (h1 : 1 ≤ q) (h4 : q ≤ 4) :
    ReadAt levels context k k' front x q ↔ k' ≤ k ∧ OpensChain levels context k k' front x q := by
  obtain rfl | rfl | rfl | rfl : q = 1 ∨ q = 2 ∨ q = 3 ∨ q = 4 := by omega
  all_goals exact Iff.rfl

/-- What stands at a place is read there, if nothing that follows takes hold of it. -/
theorem ReadAt.gives (h : ReadAt levels context k k' front x q) (hk : k ≤ levels) (h1 : 1 ≤ q)
    (h5 : q ≤ 5) (hfollows : Follows context.records q front following) :
    Gives (stage levels q) context k (front ++ following) x k' following := by
  rcases Nat.lt_or_ge q 5 with hlt | hge
  · obtain ⟨-, fuel, -, hopens⟩ := (readAt_chain h1 (by omega)).1 h
    exact hopens following (hfollows.mono (Nat.le_succ q)) _ _ _ (gives_chain_stop hfollows.reach _ _)
  · obtain rfl : q = 5 := by omega
    exact h.2 levels hk following hfollows

theorem readAt_sign (h : ReadAt levels context k k' front x 6) :
    ReadAt levels context k k' front x 5 := by
  obtain ⟨hle, ⟨t, ht, hminus⟩, fuel, -, hopens⟩ := h
  refine ⟨hle, fun signs _ following hfollows => ?_⟩
  have haccess := hopens following (hfollows.mono (by omega)) _ _ _
    (gives_accesses_stop (hfollows.mono (r := 6) (by omega)).reach fuel)
  have hhead : (front ++ following).head? ≠ some (.symbol .minus) := by
    rw [List.head?_append, ht]
    simpa using hminus
  have hstep : ∀ negated, Gives (signStep (accessStage levels) negated) context k
      (front ++ following) x k' following :=
    fun _ => (gives_eat_other hhead).bind haccess
  cases signs <;> exact hstep _

/-- What stands at a place stands at the next looser one. -/
theorem ReadAt.next (h : ReadAt levels context k k' front x (q + 1)) (hk : k ≤ levels) (h1 : 1 ≤ q)
    (h5 : q ≤ 5) : ReadAt levels context k k' front x q := by
  rcases Nat.lt_or_ge q 5 with hlt | hge
  · refine (readAt_chain h1 (by omega)).2 ⟨h.1, levels, Nat.le_trans h.1 hk, ?_⟩
    intro following hfollows b k'' rest hchain
    rw [stage_eq levels h1 (by omega)]
    exact (h.gives hk (by omega) (by omega) hfollows).bind hchain
  · obtain rfl : q = 5 := by omega
    exact readAt_sign h

theorem ReadAt.lower {p : Nat} (h : ReadAt levels context k k' front x p) (hk : k ≤ levels)
    (hp : p ≤ 6) (h1 : 1 ≤ q) (hle : q ≤ p) : ReadAt levels context k k' front x q := by
  induction hn : p - q generalizing q with
  | zero =>
    obtain rfl : q = p := by omega
    exact h
  | succ n ih => exact (ih (by omega) (by omega) (by omega)).next hk h1 (by omega)

theorem ReadAt.inner (h : ReadAt levels context k k' front x 1) (hk : k ≤ levels)
    (hfollows : Follows context.records 1 front following) :
    Gives (expressionAt (levels + 1)) context (k + 1) (front ++ following) x (k + 1) following :=
  (h.gives hk (by decide) (by decide) hfollows).nested

end Places

section Operators
variable {levels : Nat} {context : ReaderContext} {k k' k'' : Nat} {front following : List Token}
  {x y : Expr}

theorem ReadAt.field (h : ReadAt levels context k (k' + 1) front x 6) {n : String}
    (hn : n ∉ keywords) :
    ReadAt levels context k k' (front ++ [.symbol .dot, .word n]) (.field x n) 6 := by
  obtain ⟨hle, ⟨t, ht, hminus⟩, fuel, hfuel, hopens⟩ := h
  obtain ⟨fuel, rfl⟩ : ∃ f, fuel = f + 1 := ⟨fuel - 1, by omega⟩
  refine ⟨by omega, ⟨t, by simp [List.head?_append, ht], hminus⟩, fuel, by omega, ?_⟩
  intro following _ b k'' rest haccess
  have hdot := follows_symbol (s := .dot) (q := 7) (by decide) (by decide) (by decide)
    context.records front (.word n :: following)
  rw [List.append_assoc]
  refine hopens _ hdot _ _ _ ?_
  exact (gives_eat .dot).bind (gives_ite_pos rfl (gives_descend.bind
    ((gives_identifier hn _).bind haccess)))

theorem ReadAt.binary {op : BinaryOp} {right : List Token}
    (h : ReadAt levels context k (k' + 1) front x op.precedence) (hk : k ≤ levels)
    (hright : ReadAt levels context k' k'' right y (op.precedence + 1)) (hne : right ≠ [])
    (hsign : ¬ (op = .subtract ∧ EndsInRange front ∧ BeginsWithNumber right)) :
    ReadAt levels context k k'' (front ++ .symbol op.mark :: right) (.binary op x y)
      op.precedence := by
  have hprecedence : 1 ≤ op.precedence ∧ op.precedence ≤ 4 := by cases op <;> decide
  obtain ⟨hle, fuel, hfuel, hopens⟩ := (readAt_chain hprecedence.1 hprecedence.2).1 h
  obtain ⟨fuel, rfl⟩ : ∃ f, fuel = f + 1 := ⟨fuel - 1, by omega⟩
  have hle' := hright.1
  refine (readAt_chain hprecedence.1 hprecedence.2).2 ⟨by omega, fuel, by omega, ?_⟩
  intro following hfollows b l rest hchain
  have hmark : Follows context.records (op.precedence + 1) front
      (.symbol op.mark :: (right ++ following)) := by
    refine ⟨fun t ht => ?_, fun _ => ?_, fun hrange a rest => ?_⟩
    · cases ht
      cases op <;> decide
    · cases op <;> simp [BinaryOp.mark]
    · intro heq
      obtain ⟨hminus, hrest⟩ := List.cons.inj heq
      refine hsign ⟨?_, hrange, a, ?_⟩
      · cases op <;> first | rfl | cases hminus
      · cases right with
        | nil => exact absurd rfl hne
        | cons t right => exact congrArg some (List.cons.inj hrest).1
  have hnext : Follows context.records (op.precedence + 1) right following :=
    Follows.suffix (front ++ [.symbol op.mark]) (by simpa using hfollows) hne
  rw [List.append_assoc, List.cons_append]
  refine hopens _ hmark _ _ _ (gives_peek.bind ?_)
  rw [List.head?_cons]
  dsimp only
  rw [operatorAt?_mark]
  exact (gives_skip _).bind (gives_descend.bind
    ((hright.gives (by omega) (by omega) (by omega) hnext).bind hchain))

theorem ReadAt.negate (h : ReadAt levels context k k' front x 5) (hne : front ≠ [])
    (hnumber : ¬ BeginsWithNumber front) :
    ReadAt levels context (k + 1) k' (.symbol .minus :: front) (.negate x) 5 := by
  refine ⟨Nat.le_succ_of_le h.1, fun signs hsigns following hfollows => ?_⟩
  obtain ⟨signs, rfl⟩ : ∃ n, signs = n + 1 := ⟨signs - 1, by omega⟩
  have hoperand := h.2 signs (by omega) following
    (Follows.suffix [.symbol .minus] hfollows hne)
  refine (gives_eat .minus).bind (gives_ite_pos rfl (gives_peek.bind ?_))
  split
  · rename_i a ha
    refine absurd ⟨a, ?_⟩ hnumber
    cases front with
    | nil => exact absurd rfl hne
    | cons t front => exact ha
  · exact gives_descend.bind (hoperand.bind (gives_pure _))

end Operators

end Expr
end TypedFlow
