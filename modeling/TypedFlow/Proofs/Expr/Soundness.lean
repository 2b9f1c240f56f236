import TypedFlow.Proofs.Expr.Grammar
import TypedFlow.Proofs.Source.Taking

/-!
# What is read is derived

The tokens that the reader takes for an expression stand for it. Behind a range without an upper end
it has not left a minus and a number, since those would have been the end; this is what keeps the
operands of a subtraction apart.
-/
namespace TypedFlow
open Reader

/-- What comes next is not the upper end of a range that is last. -/
def Stops (front rest : List Token) : Prop :=
  EndsInRange front → ∀ a after, rest ≠ .symbol .minus :: .number a :: after

theorem stops_of_last {front rest : List Token} {t : Token} (h : front.getLast? = some t)
    (ht : ∀ mark, t ≠ .range mark) : Stops front rest := by
  rintro ⟨mark, hmark⟩
  exact absurd (Option.some.inj (h.symm.trans hmark)) (ht mark)

theorem stops_append {front more rest : List Token} (hne : more ≠ []) (h : Stops more rest) :
    Stops (front ++ more) rest := by
  rintro ⟨mark, hmark⟩
  rw [List.getLast?_append_of_ne_nil _ hne] at hmark
  exact h ⟨mark, hmark⟩

theorem stops_closed {front rest : List Token} {t : Token} (ht : ∀ mark, t ≠ .range mark) :
    Stops (front ++ [t]) rest :=
  stops_of_last List.getLast?_concat ht

theorem stops_cons {t : Token} {more rest : List Token} (ht : ∀ mark, t ≠ .range mark)
    (h : Stops more rest) : Stops (t :: more) rest := by
  cases more with
  | nil => exact stops_of_last rfl ht
  | cons next more =>
    rw [← List.singleton_append]
    exact stops_append (List.cons_ne_nil _ _) h

/-- The tokens begin with some that stand for the expression. -/
def Derived (records : Bool) (place : Nat) (tokens : List Token) (e : Expr) (rest : List Token) :
    Prop :=
  ∃ front, tokens = front ++ rest ∧ Derives records place front e ∧ Stops front rest

def TakesAt (r : Reader Expr) (place : Nat) : Prop :=
  ∀ context tokens e rest, Takes r context tokens e rest →
    Derived context.records place tokens e rest

namespace Expr
variable {context : ReaderContext} {tokens rest : List Token} {e : Expr}

section Numbers

theorem takes_rangeFrom {min : Option Number} {mark : RangeMark}
    (h : Takes (rangeFrom min mark) context tokens e rest) :
    ∃ upper, tokens = upper ++ rest ∧ RangeFrom min (.range mark :: upper) e ∧
      Stops (.range mark :: upper) rest := by
  have hend : ∀ {max : Option Number} {upper middle : List Token}, UpperEnd upper max →
      tokens = upper ++ middle → Stops (.range mark :: upper) middle →
      Takes (do
        if max.isNone && !mark.maxInclusive then fail .rangeWithoutMax
        return Expr.range ⟨min, max, mark.minInclusive, mark.maxInclusive⟩) context middle e rest →
      ∃ upper, tokens = upper ++ rest ∧ RangeFrom min (.range mark :: upper) e ∧
        Stops (.range mark :: upper) rest := by
    intro max upper middle hupper htokens hstops hrest
    obtain ⟨hmax, hpure⟩ := hrest.of_unless
    obtain ⟨rfl, rfl⟩ := takes_pure hpure
    refine ⟨upper, htokens, .mk hupper ?_, hstops⟩
    rintro rfl
    simpa using hmax
  replace h := h.of_peek.of_peekSecond
  split at h
  · rename_i a hhead
    obtain ⟨_, _, hpure, h⟩ := h.of_skip.of_bind
    obtain ⟨rfl, rfl⟩ := takes_pure hpure
    exact hend (.number a) (exists_of_head? hhead) (stops_of_last rfl nofun) h
  · rename_i a hhead hsecond
    obtain ⟨_, _, hpure, h⟩ := h.of_skip.of_skip.of_bind
    obtain ⟨rfl, rfl⟩ := takes_pure hpure
    refine hend (.negative a) ?_ (stops_of_last rfl nofun) h
    rw [exists_of_head? hhead, exists_of_head? hsecond]
    rfl
  · rename_i hnumber hminus
    obtain ⟨_, _, hpure, h⟩ := h.of_bind
    obtain ⟨rfl, rfl⟩ := takes_pure hpure
    refine hend .none rfl (fun _ a after heq => ?_) h
    subst heq
    exact hminus a rfl rfl

theorem takes_numberOrRange {a : Number} (h : Takes (numberOrRange a) context tokens e rest) :
    ∃ more, tokens = more ++ rest ∧ NumberOrRange a more e ∧ Stops more rest := by
  replace h := h.of_peek
  split at h
  · rename_i mark hhead
    obtain ⟨upper, htail, hrange, hstops⟩ := takes_rangeFrom h.of_skip
    refine ⟨.range mark :: upper, ?_, .range hrange, hstops⟩
    rw [exists_of_head? hhead, htail]
    rfl
  · obtain ⟨rfl, rfl⟩ := takes_pure h
    refine ⟨[], rfl, .number, ?_⟩
    rintro ⟨mark, hmark⟩
    cases hmark

end Numbers

section Parts
variable {inner : Reader Expr} (hi : TakesAt inner 1)
include hi

theorem takes_inner (h : Takes inner context tokens e rest) :
    ∃ p : Phrase, Derives context.records 1 p.tokens p.value ∧ tokens = p.tokens ++ rest ∧
      e = p.value := by
  obtain ⟨front, htokens, hderives, -⟩ := hi _ _ _ _ h
  exact ⟨⟨front, e⟩, hderives, htokens, rfl⟩

theorem takesItems_argument (hrecords : context.records = true) :
    TakesItems inner context (fun p : Phrase => Derives true 1 p.tokens p.value) Phrase.tokens
      Phrase.value :=
  fun _ _ _ h => hrecords ▸ takes_inner hi h

theorem takesItems_field {role : String} (hrecords : context.records = true) :
    TakesItems (labelled inner role) context
      (fun f => f.1 ∉ keywords ∧ Derives true 1 f.2.tokens f.2.value)
      Phrase.fieldTokens Phrase.fieldValue := by
  intro tokens field rest h
  obtain ⟨n, hn, hname, h⟩ := h.of_identifier
  obtain ⟨hcolon, h⟩ := h.of_expect
  obtain ⟨e, hinner, rfl⟩ := h.of_bind_pure
  obtain ⟨p, hp, htail, rfl⟩ := takes_inner hi hinner
  refine ⟨(n, p), ⟨hn, hrecords ▸ hp⟩, ?_, rfl⟩
  rw [hname, hcolon, htail]
  rfl

/-- Every name and every expression of an arm is one. -/
structure ArmDerives (a : MatchArm Phrase) : Prop where
  binding : ∀ n ∈ a.binding, n ∉ keywords
  pattern : ∀ p ∈ a.pattern, Derives true 1 p.tokens p.value
  body : Derives true 1 a.body.tokens a.body.value

theorem takes_armBody {pattern : Option Phrase} {binding : Option String} {a : MatchArm Expr}
    (hrecords : context.records = true) (hb : ∀ n ∈ binding, n ∉ keywords)
    (hp : ∀ p ∈ pattern, Derives true 1 p.tokens p.value)
    (h : Takes (do
      expect .arrow
      return MatchArm.mk (pattern.map Phrase.value) binding (← inner)) context tokens a rest) :
    ∃ body : Phrase, ArmDerives ⟨pattern, binding, body⟩ ∧
      tokens = .symbol .arrow :: (body.tokens ++ rest) ∧
      a = Phrase.armValue ⟨pattern, binding, body⟩ := by
  obtain ⟨harrow, h⟩ := h.of_expect
  obtain ⟨e, hinner, rfl⟩ := h.of_bind_pure
  obtain ⟨body, hderives, htail, rfl⟩ := takes_inner hi hinner
  exact ⟨body, ⟨hb, hp, hrecords ▸ hderives⟩, harrow.trans (congrArg _ htail), rfl⟩

theorem takes_armBinding (pattern : Option Phrase) {a : MatchArm Expr}
    (hrecords : context.records = true)
    (hp : ∀ p ∈ pattern, Derives true 1 p.tokens p.value)
    (h : Takes (do
      let binding ← if ← eatWord "as" then some <$> identifier "binding name" else pure none
      expect .arrow
      return MatchArm.mk (pattern.map Phrase.value) binding (← inner)) context tokens a rest) :
    ∃ (binding : Option String) (body : Phrase), ArmDerives ⟨pattern, binding, body⟩ ∧
      tokens = (binding.elim [] fun n => [.word "as", .word n]) ++ .symbol .arrow ::
        (body.tokens ++ rest) ∧
      a = Phrase.armValue ⟨pattern, binding, body⟩ := by
  rcases h.of_eatWord with ⟨has, h⟩ | ⟨-, h⟩
  · obtain ⟨binding, middle, hname, h⟩ := h.of_bind
    obtain ⟨n, hn, hword, hname⟩ := Takes.of_identifier (f := fun n => pure (some n)) hname
    obtain ⟨rfl, rfl⟩ := takes_pure hname
    obtain ⟨body, hgood, htail, rfl⟩ := takes_armBody hi hrecords
      (fun m hm => Option.some.inj hm ▸ hn) hp h
    refine ⟨some n, body, hgood, ?_, rfl⟩
    rw [has, hword, htail]
    rfl
  · obtain ⟨binding, middle, hnone, h⟩ := h.of_bind
    obtain ⟨rfl, rfl⟩ := takes_pure hnone
    obtain ⟨body, hgood, htokens, rfl⟩ := takes_armBody hi hrecords (fun _ hm => by cases hm) hp h
    exact ⟨none, body, hgood, htokens, rfl⟩

theorem takesItems_arm (hrecords : context.records = true) :
    TakesItems (arm inner) context ArmDerives Phrase.armTokens Phrase.armValue := by
  intro tokens a rest h
  rcases h.of_eatWord with ⟨hwildcard, h⟩ | ⟨-, h⟩
  · obtain ⟨pattern, middle, hnone, h⟩ := h.of_bind
    obtain ⟨rfl, rfl⟩ := takes_pure hnone
    obtain ⟨binding, body, hgood, htail, rfl⟩ := takes_armBinding hi none hrecords
      (fun _ hp => by cases hp) h
    refine ⟨⟨none, binding, body⟩, hgood, ?_, rfl⟩
    rw [hwildcard, htail]
    simp [Phrase.armTokens, armTokens]
  · obtain ⟨pattern, middle, hsome, h⟩ := h.of_bind
    obtain ⟨e, hinner, rfl⟩ := Takes.of_bind_pure hsome
    obtain ⟨p, hp, htokens, rfl⟩ := takes_inner hi hinner
    obtain ⟨binding, body, hgood, htail, rfl⟩ := takes_armBinding hi (some p) hrecords
      (fun q hq => Option.some.inj hq ▸ hrecords ▸ hp) h
    refine ⟨⟨some p, binding, body⟩, hgood, ?_, rfl⟩
    rw [htokens, htail]
    simp [Phrase.armTokens, armTokens]

theorem takes_callOf {callee : List Token} {function : String} (hcallee : Callee callee function)
    (h : Takes (callOf inner function) context tokens e rest) :
    Derived context.records 6 (callee ++ tokens) e rest := by
  obtain ⟨hparen, h⟩ := h.of_expect
  obtain ⟨args, hargs, rfl⟩ := h.of_bind_pure
  obtain ⟨phrases, list, hgood, hlist, htail, rfl⟩ :=
    (takesItems_argument hi rfl).delimited hargs.of_withRecords
  refine ⟨callee ++ .symbol .openParen :: (list ++ [.symbol .closeParen]), ?_,
    .call hcallee hgood hlist,
    stops_append (List.cons_ne_nil _ _) (stops_cons nofun (stops_closed nofun))⟩
  rw [hparen, htail]
  simp

theorem takes_recordOf (hrecords : context.records = true) {owner : String} (howner : owner ∉ keywords)
    (h : Takes (recordOf inner owner) context tokens e rest) :
    Derived context.records 6 (.word owner :: tokens) e rest := by
  obtain ⟨hbrace, h⟩ := h.of_expect
  obtain ⟨values, hvalues, rfl⟩ := h.of_bind_pure
  obtain ⟨fields, list, hgood, hlist, htail, rfl⟩ :=
    (takesItems_field hi rfl).delimited hvalues.of_withRecords
  refine ⟨.word owner :: .symbol .openBrace :: (list ++ [.symbol .closeBrace]), ?_, ?_,
    stops_cons nofun (stops_cons nofun (stops_closed nofun))⟩
  · rw [hbrace, htail]
    simp
  · rw [hrecords]
    exact .record howner (fun f hf => (hgood f hf).1) (fun f hf => (hgood f hf).2) hlist

theorem takes_reference (h : Takes (reference inner) context tokens e rest) :
    Derived context.records 6 tokens e rest := by
  obtain ⟨n, hn, hword, h⟩ := h.of_identifier
  rcases h.of_eat with ⟨hpath, h⟩ | ⟨-, h⟩
  · obtain ⟨m, hm, hmember, h⟩ := h.of_identifier
    rw [hword, hpath, hmember]
    replace h := h.of_peek
    split at h
    · exact takes_callOf hi (.path hn hm) h
    · obtain ⟨rfl, rfl⟩ := takes_pure h
      exact ⟨_, rfl, .path hn hm, stops_of_last rfl nofun⟩
  · rw [hword]
    have hname : Derived context.records 6 (.word n :: tokens.tail) (.name n) tokens.tail :=
      ⟨[.word n], rfl, .name hn, stops_of_last rfl nofun⟩
    replace h := h.of_peek
    split at h
    · exact takes_callOf hi (.name hn) h
    · rcases h.of_read.of_ite with ⟨hrecords, h⟩ | ⟨-, h⟩
      · exact takes_recordOf hi hrecords hn h
      · obtain ⟨rfl, rfl⟩ := takes_pure h
        exact hname
    · obtain ⟨rfl, rfl⟩ := takes_pure h
      exact hname

theorem takes_selectOf (h : Takes (selectOf inner) context tokens e rest) :
    Derived context.records 6 (.word "match" :: tokens) e rest := by
  obtain ⟨x, middle, hscrutinee, h⟩ := h.of_bind
  obtain ⟨p, hp, rfl, rfl⟩ := takes_inner hi hscrutinee.of_withRecords
  obtain ⟨hbrace, h⟩ := h.of_expect
  obtain ⟨values, middle', hvalues, h⟩ := h.of_bind
  obtain ⟨arms, list, hgood, hlist, htail, rfl⟩ :=
    (takesItems_arm hi rfl).delimited hvalues.of_withRecords
  obtain ⟨hne, hpure⟩ := h.of_unless
  obtain ⟨rfl, rfl⟩ := takes_pure hpure
  refine ⟨.word "match" :: (p.tokens ++ .symbol .openBrace :: (list ++ [.symbol .closeBrace])), ?_, ?_,
    stops_cons nofun (stops_append (List.cons_ne_nil _ _) (stops_cons nofun (stops_closed nofun)))⟩
  · rw [hbrace, htail]
    simp
  · exact .select hp (by simpa using hne) (fun a ha => (hgood a ha).binding)
      (fun a ha => (hgood a ha).pattern) (fun a ha => (hgood a ha).body) hlist

theorem takes_primary : TakesAt (primary inner) 6 := by
  intro context tokens e rest h
  replace h := h.of_peek
  split at h
  · rename_i a hhead
    obtain ⟨more, htail, hnumber, hstops⟩ := takes_numberOrRange h.of_skip
    refine ⟨.number a :: more, ?_, .number hnumber, stops_cons nofun hstops⟩
    rw [exists_of_head? hhead, htail]
    rfl
  · rename_i s hhead
    obtain ⟨rfl, rfl⟩ := takes_pure h.of_skip
    exact ⟨[.text s], exists_of_head? hhead, .string s, stops_of_last rfl nofun⟩
  · rename_i mark hhead
    obtain ⟨hmin, h⟩ := h.of_unless
    obtain ⟨upper, htail, hrange, hstops⟩ := takes_rangeFrom h.of_skip
    refine ⟨.range mark :: upper, ?_, .range (by simpa using hmin) hrange, hstops⟩
    rw [exists_of_head? hhead, htail]
    rfl
  · rename_i hhead
    obtain ⟨x, middle, hinner, h⟩ := h.of_skip.of_bind
    obtain ⟨hclose, hpure⟩ := h.of_expect
    obtain ⟨rfl, rfl⟩ := takes_pure hpure
    obtain ⟨p, hp, htail, rfl⟩ := takes_inner hi hinner.of_withRecords
    refine ⟨.symbol .openParen :: (p.tokens ++ [.symbol .closeParen]), ?_, .parenthesized hp,
      stops_cons nofun (stops_closed nofun)⟩
    rw [exists_of_head? hhead, htail, hclose]
    simp
  · rename_i w hhead
    rcases h.of_ite with ⟨rfl, h⟩ | ⟨-, h⟩
    · rw [exists_of_head? hhead]
      exact takes_selectOf hi h.of_skip
    · exact takes_reference hi h
  · exact absurd h not_takes_expected

end Parts

section Operators
variable {front : List Token} {x : Expr}

/-- From an expression that has been read, the reader goes on to a longer one at the same place. -/
def Continues (r : Reader Expr) (place : Nat) (x : Expr) : Prop :=
  ∀ context front tokens e rest, Derives context.records place front x → Stops front tokens →
    Takes r context tokens e rest → Derived context.records place (front ++ tokens) e rest

theorem continues_tooDeep {place : Nat} : Continues tooDeep place x :=
  fun _ _ _ _ _ _ _ h => absurd h not_takes_fail

theorem continues_accessStep {continued : Expr → Reader Expr} (hc : ∀ x, Continues (continued x) 6 x) :
    Continues (accessStep continued x) 6 x := by
  intro context front tokens e rest hx hstops h
  rcases h.of_eat with ⟨hdot, h⟩ | ⟨-, h⟩
  · obtain ⟨n, hn, hword, h⟩ := h.of_descend.of_identifier
    have hnext := hc _ context (front ++ [.symbol .dot, .word n]) _ _ _ (.field hx hn)
      (stops_append (List.cons_ne_nil _ _) (stops_of_last rfl nofun)) h
    rw [hdot, hword]
    simpa using hnext
  · obtain ⟨rfl, rfl⟩ := takes_pure h
    exact ⟨front, rfl, hx, hstops⟩

theorem continues_accesses (levels : Nat) : Continues (accesses levels x) 6 x := by
  induction levels generalizing x with
  | zero => exact continues_accessStep fun _ => continues_tooDeep
  | succ levels ih => exact continues_accessStep fun _ => ih

theorem takes_signStep {operand negated : Reader Expr} (ho : TakesAt operand 6)
    (hn : TakesAt negated 5) : TakesAt (signStep operand negated) 5 := by
  intro context tokens e rest h
  rcases h.of_eat with ⟨hminus, h⟩ | ⟨-, h⟩
  · replace h := h.of_peek
    split at h
    · rename_i a hhead
      obtain ⟨more, htail, hnumber, hstops⟩ := takes_numberOrRange h.of_skip
      refine ⟨.symbol .minus :: .number a :: more, ?_, .negative hnumber,
        stops_cons nofun (stops_cons nofun hstops)⟩
      rw [hminus, exists_of_head? hhead, htail]
      rfl
    · rename_i hnumber
      obtain ⟨x, hnegated, rfl⟩ := h.of_descend.of_bind_pure
      obtain ⟨front, htail, hderives, hstops⟩ := hn _ _ _ _ hnegated
      refine ⟨.symbol .minus :: front, ?_, .negate hderives ?_, stops_cons nofun hstops⟩
      · rw [hminus, htail]
        rfl
      · rintro ⟨a, ha⟩
        exact hnumber a (by rw [htail, List.head?_append, ha]; rfl)
  · obtain ⟨front, htokens, hderives, hstops⟩ := ho _ _ _ _ h
    exact ⟨front, htokens, .tighter (by decide) hderives, hstops⟩

theorem takes_signed {operand : Reader Expr} (ho : TakesAt operand 6) (levels : Nat) :
    TakesAt (signed operand levels) 5 := by
  have hnone : TakesAt tooDeep 5 := fun _ _ _ _ h => absurd h not_takes_fail
  induction levels with
  | zero => exact takes_signStep ho hnone
  | succ levels ih => exact takes_signStep ho ih

variable {op? : Symbol → Option BinaryOp} {place : Nat}
  (hop : ∀ s op, op? s = some op → op.mark = s ∧ op.precedence = place)
include hop

theorem continues_chainStep {operand : Reader Expr} (ho : TakesAt operand (place + 1))
    {continued : Expr → Reader Expr} (hc : ∀ x, Continues (continued x) place x) :
    Continues (chainStep op? operand continued x) place x := by
  intro context front tokens e rest hx hstops h
  have hstop : x = e → rest = tokens → Derived context.records place (front ++ tokens) e rest := by
    rintro rfl rfl
    exact ⟨front, rfl, hx, hstops⟩
  replace h := h.of_peek
  split at h
  · rename_i s hhead
    split at h
    · rename_i op hs
      obtain ⟨rfl, rfl⟩ := hop s op hs
      obtain ⟨y, middle, hoperand, h⟩ := h.of_skip.of_descend.of_bind
      obtain ⟨right, htail, hy, hright⟩ := ho _ _ _ _ hoperand
      have htokens : tokens = .symbol op.mark :: (right ++ middle) := by
        rw [exists_of_head? hhead, htail]
      have hsign : ¬ (op = .subtract ∧ EndsInRange front ∧ BeginsWithNumber right) := by
        rintro ⟨rfl, hrange, a, ha⟩
        -- The range would have taken the minus and the number for its upper end.
        obtain ⟨more, rfl⟩ := List.head?_eq_some_iff.1 ha
        exact hstops hrange a (more ++ middle) htokens
      have hnext := hc _ context (front ++ .symbol op.mark :: right) _ _ _ (.binary hx hy hsign)
        (stops_append (List.cons_ne_nil _ _) (stops_cons nofun hright)) h
      rw [htokens]
      simpa using hnext
    · obtain ⟨rfl, rfl⟩ := takes_pure h
      exact hstop rfl rfl
  · obtain ⟨rfl, rfl⟩ := takes_pure h
    exact hstop rfl rfl

theorem continues_chain {operand : Reader Expr} (ho : TakesAt operand (place + 1)) (levels : Nat) :
    Continues (chain op? operand levels x) place x := by
  induction levels generalizing x with
  | zero => exact continues_chainStep hop ho fun _ => continues_tooDeep
  | succ levels ih => exact continues_chainStep hop ho fun _ => ih

theorem takes_joined (hplace : 1 ≤ place) {operand : Reader Expr} (ho : TakesAt operand (place + 1))
    (levels : Nat) : TakesAt (joined op? levels operand) place := by
  intro context tokens e rest h
  obtain ⟨x, middle, hoperand, hchain⟩ := h.of_bind
  obtain ⟨front, rfl, hx, hstops⟩ := ho _ _ _ _ hoperand
  exact continues_chain hop ho levels context front middle e rest (.tighter hplace hx) hstops hchain

end Operators

theorem takes_operators {inner : Reader Expr} (hi : TakesAt inner 1) (levels : Nat) :
    TakesAt (operators levels inner) 1 := by
  have haccess : TakesAt (do accesses levels (← primary inner)) 6 := by
    intro context tokens e rest h
    obtain ⟨x, middle, hprimary, haccesses⟩ := h.of_bind
    obtain ⟨front, rfl, hx, hstops⟩ := takes_primary hi _ _ _ _ hprimary
    exact continues_accesses levels context front middle e rest hx hstops haccesses
  have hproduct : ∀ s op, productOp? s = some op → op.mark = s ∧ op.precedence = 4 := by
    intro s op h
    cases s <;> cases h
    exact ⟨rfl, rfl⟩
  have hsum : ∀ s op, sumOp? s = some op → op.mark = s ∧ op.precedence = 3 := by
    intro s op h
    cases s <;> cases h <;> exact ⟨rfl, rfl⟩
  have hintersection : ∀ s op, intersectionOp? s = some op → op.mark = s ∧ op.precedence = 2 := by
    intro s op h
    cases s <;> cases h
    exact ⟨rfl, rfl⟩
  have hunion : ∀ s op, unionOp? s = some op → op.mark = s ∧ op.precedence = 1 := by
    intro s op h
    cases s <;> cases h
    exact ⟨rfl, rfl⟩
  exact takes_joined hunion (by decide) (takes_joined hintersection (by decide)
    (takes_joined hsum (by decide) (takes_joined hproduct (by decide)
      (takes_signed haccess levels) levels) levels) levels) levels

theorem takes_expressionAt (levels : Nat) : TakesAt (expressionAt levels) 1 := by
  induction levels with
  | zero => exact fun _ _ _ _ h => absurd h not_takes_fail
  | succ levels ih => exact fun context tokens e rest h => takes_operators ih levels _ _ _ _ h.of_nested

end Expr
end TypedFlow
