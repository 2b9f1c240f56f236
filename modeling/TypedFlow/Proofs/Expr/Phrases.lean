import TypedFlow.Proofs.Expr.Grammar
import TypedFlow.Proofs.Expr.Places

/-!
# Reading phrases

How the reader takes one phrase of the grammar, given that it takes the expressions further in.
-/
namespace TypedFlow
open Reader

namespace Expr
variable {levels : Nat} {context : ReaderContext} {k : Nat} {front following : List Token} {x : Expr}

theorem readAt_primary (hk : k ≤ levels) {t : Token} (ht : front.head? = some t)
    (hminus : t ≠ .symbol .minus)
    (h : ∀ following, Follows context.records 7 front following →
      Gives (primary (expressionAt levels)) context k (front ++ following) x k following) :
    ReadAt levels context k k front x 6 :=
  ⟨Nat.le_refl k, ⟨t, ht, hminus⟩, levels, hk, fun following hfollows _ _ _ haccess =>
    (h following hfollows).bind haccess⟩

section Numbers
variable {a : Number} {mark : RangeMark} {rest : List Token} {t : Token}

theorem gives_rangeFrom {min : Option Number} (h : RangeFrom min (.range mark :: rest) x)
    (hfollows : Follows context.records 7 (.range mark :: rest) following) :
    Gives (rangeFrom min mark) context k (rest ++ following) x k following := by
  obtain ⟨hupper, hmax⟩ := h
  have hrest : ∀ found : Option Number, (found = none → mark.maxInclusive = true) →
      Gives (do
        if found.isNone && !mark.maxInclusive then fail .rangeWithoutMax
        return Expr.range ⟨min, found, mark.minInclusive, mark.maxInclusive⟩) context k following
      (.range ⟨min, found, mark.minInclusive, mark.maxInclusive⟩) k following := by
    intro found hfound
    refine gives_ite_neg ?_ (gives_pure _)
    cases found with
    | none => simp [hfound rfl]
    | some a => simp
  refine gives_peek.bind (gives_peekSecond.bind ?_)
  cases hupper with
  | none =>
    rw [List.nil_append]
    split
    · rename_i a hnumber
      exact absurd (hfollows.reach _ hnumber) (Nat.lt_irrefl 7)
    · rename_i a hminus hnumber
      obtain ⟨rest, rfl⟩ := List.head?_eq_some_iff.1 hminus
      obtain ⟨rest', rfl⟩ := List.head?_eq_some_iff.1 hnumber
      exact absurd rfl (hfollows.sign ⟨mark, rfl⟩ a rest')
    · exact (gives_pure none).bind (hrest none hmax)
  | number a => exact (gives_skip _).bind ((gives_pure _).bind (hrest _ fun h => by cases h))
  | negative a =>
    exact (gives_skip _).bind ((gives_skip _).bind ((gives_pure _).bind
      (hrest _ fun h => by cases h)))

theorem gives_numberOrRange (h : NumberOrRange a rest x)
    (hfollows : Follows context.records 7 (t :: rest) following) :
    Gives (numberOrRange a) context k (rest ++ following) x k following := by
  cases h with
  | number =>
    rw [List.nil_append]
    refine gives_peek.bind ?_
    cases following with
    | nil => exact gives_pure _
    | cons t rest =>
      cases t with
      | range mark => exact absurd (hfollows.reach _ rfl) (Nat.lt_irrefl 7)
      | symbol s => exact gives_pure _
      | word w => exact gives_pure _
      | number b => exact gives_pure _
      | text s => exact gives_pure _
  | range h =>
    obtain ⟨hupper, hmax⟩ := h
    exact gives_peek.bind ((gives_skip _).bind
      (gives_rangeFrom ⟨hupper, hmax⟩ (hfollows.suffix [t] (List.cons_ne_nil _ _))))

theorem gives_primary_number (h : NumberOrRange a rest x)
    (hfollows : Follows context.records 7 (.number a :: rest) following) :
    Gives (primary (expressionAt levels)) context k (.number a :: rest ++ following) x k following :=
  gives_peek.bind ((gives_skip _).bind (gives_numberOrRange h hfollows))

theorem gives_primary_range (hmin : mark.minInclusive = true)
    (h : RangeFrom none (.range mark :: rest) x)
    (hfollows : Follows context.records 7 (.range mark :: rest) following) :
    Gives (primary (expressionAt levels)) context k (.range mark :: rest ++ following) x k
      following :=
  gives_peek.bind (gives_ite_neg (by simp [hmin]) ((gives_skip _).bind (gives_rangeFrom h hfollows)))

theorem readAt_negative (h : NumberOrRange (-a) rest x) :
    ReadAt levels context k k (.symbol .minus :: .number a :: rest) x 5 := by
  refine ⟨Nat.le_refl k, fun signs _ following hfollows => ?_⟩
  have hnumber : Follows context.records 7 (.number a :: rest) following :=
    (hfollows.mono (by decide)).suffix [.symbol .minus] (List.cons_ne_nil _ _)
  have hstep : ∀ negated, Gives (signStep (accessStage levels) negated) context k
      (.symbol .minus :: .number a :: rest ++ following) x k following :=
    fun _ => (gives_eat .minus).bind (gives_peek.bind ((gives_skip _).bind
      (gives_numberOrRange h hnumber)))
  cases signs <;> exact hstep _

end Numbers

theorem gives_primary_string (s : String) :
    Gives (primary (expressionAt levels)) context k (.text s :: following) (.string s) k following :=
  gives_peek.bind ((gives_skip _).bind (gives_pure _))

section Words
variable {n m : String} (hn : n ∉ keywords)
include hn

theorem gives_primary_reference {k' : Nat} {following' : List Token}
    (h : Gives (reference (expressionAt levels)) context k (.word n :: following) x k' following') :
    Gives (primary (expressionAt levels)) context k (.word n :: following) x k' following' := by
  have hmatch : n ≠ "match" := by
    rintro rfl
    exact hn (by decide)
  exact gives_peek.bind (gives_ite_neg hmatch h)

theorem gives_primary_name (hfollows : Follows context.records 7 [.word n] following) :
    Gives (primary (expressionAt levels)) context k (.word n :: following) (.name n) k following := by
  have hpath : following.head? ≠ some (.symbol .pathSeparator) :=
    fun hpath => Nat.lt_irrefl 7 (hfollows.reach _ hpath)
  refine gives_primary_reference hn ((gives_identifier hn _).bind ((gives_eat_other hpath).bind
    (gives_ite_neg (by simp) (gives_peek.bind ?_))))
  split
  · rename_i hparen
    exact absurd (hfollows.reach _ hparen) (Nat.lt_irrefl 7)
  · rename_i hbrace
    refine gives_read.bind (gives_ite_neg ?_ (gives_pure _))
    exact fun hrecords => hfollows.brace hrecords hbrace
  · exact gives_pure _

theorem gives_primary_path (hm : m ∉ keywords) {path : List Token}
    (hfollows : Follows context.records 7 path following) :
    Gives (primary (expressionAt levels)) context k
      (.word n :: .symbol .pathSeparator :: .word m :: following) (.path n m) k following := by
  refine gives_primary_reference hn ((gives_identifier hn _).bind ((gives_eat _).bind
    (gives_ite_pos rfl ((gives_identifier hm _).bind (gives_peek.bind ?_)))))
  split
  · rename_i hparen
    exact absurd (hfollows.reach _ hparen) (Nat.lt_irrefl 7)
  · exact gives_pure _

end Words

/-- Wherever nothing takes hold of it, the tokens are read as an expression further in. -/
def ReadsInner (levels : Nat) (context : ReaderContext) (k : Nat) (front : List Token) (x : Expr) :
    Prop :=
  ∀ following, Follows context.records 1 front following →
    Gives (expressionAt levels) context k (front ++ following) x k following

theorem gives_primary_parenthesized (h : ReadsInner levels { context with records := true } k front x)
    (following : List Token) :
    Gives (primary (expressionAt levels)) context k
      (.symbol .openParen :: (front ++ .symbol .closeParen :: following)) x k following := by
  have hinner := h _ (follows_symbol (s := .closeParen) (by decide) (by decide) (by decide) true
    front following)
  exact gives_peek.bind ((gives_skip _).bind (hinner.withRecords.bind
    ((gives_expect .closeParen).bind (gives_pure _))))

section Items
variable {s : Symbol}

theorem follows_item (h : s = .comma ∨ s = .closeParen ∨ s = .closeBrace)
    (records : Bool) (front rest : List Token) : Follows records 1 front (.symbol s :: rest) := by
  rcases h with rfl | rfl | rfl
  all_goals exact follows_symbol (by decide) (by decide) (by decide) records front rest

theorem givesItem_argument (h : ReadsInner levels context k front x)
    (hhead : ∃ t, front.head? = some t ∧ t.Begins) :
    GivesItem (expressionAt levels) context k .closeParen front x := by
  refine ⟨?_, fun s following hs => h _ (follows_item (hs.imp_right .inl) _ _ _)⟩
  obtain ⟨t, ht, hbegins⟩ := hhead
  refine ⟨t, ht, ?_⟩
  rintro rfl
  rcases hbegins with h | h <;> cases h

theorem givesItem_field {n : String} (hn : n ∉ keywords) (h : ReadsInner levels context k front x) :
    GivesItem (labelled (expressionAt levels) "field name") context k .closeBrace
      (.word n :: .symbol .colon :: front) (n, x) := by
  refine ⟨⟨_, rfl, by simp⟩, fun s following hs => ?_⟩
  exact (gives_identifier hn _).bind ((gives_expect .colon).bind
    ((h _ (follows_item (hs.imp_right .inr) _ _ _)).bind (gives_pure _)))

variable {binding : Option String} (hbinding : ∀ n ∈ binding, n ∉ keywords)
  (hbody : ReadsInner levels context k front x)
include hbinding hbody

theorem gives_armRest (pattern : Option Expr) (hfollows : Follows context.records 1 front following) :
    Gives (do
      let binding ← if ← eatWord "as" then some <$> identifier "binding name" else pure none
      expect .arrow
      return MatchArm.mk pattern binding (← expressionAt levels)) context k
      ((binding.elim [] fun n => [.word "as", .word n]) ++ .symbol .arrow :: (front ++ following))
      ⟨pattern, binding, x⟩ k following := by
  have hrest : Gives (do
      expect .arrow
      return MatchArm.mk pattern binding (← expressionAt levels)) context k
      (.symbol .arrow :: (front ++ following)) ⟨pattern, binding, x⟩ k following :=
    (gives_expect .arrow).bind ((hbody _ hfollows).bind (gives_pure _))
  cases binding with
  | none => exact (gives_eatWord_other (by simp)).bind (gives_ite_neg (by simp) hrest)
  | some n =>
    exact (gives_eatWord "as").bind (gives_ite_pos rfl
      (((gives_identifier (hbinding n rfl) _).map some).bind hrest))

theorem givesItem_wildcard : GivesItem (arm (expressionAt levels)) context k .closeBrace
    (armTokens [.word "_"] binding front) ⟨none, binding, x⟩ := by
  refine ⟨⟨_, rfl, by simp⟩, fun s following hs => ?_⟩
  have hrest := gives_armRest hbinding hbody none (follows_item (hs.imp_right .inr) _ _ following)
  rw [armTokens, List.append_assoc, List.append_assoc]
  exact (gives_eatWord "_").bind (gives_ite_pos rfl hrest)

theorem givesItem_arm {pattern : List Token} {y : Expr}
    (hpattern : ReadsInner levels context k pattern y)
    (hhead : ∃ t, pattern.head? = some t ∧ t.Begins) :
    GivesItem (arm (expressionAt levels)) context k .closeBrace (armTokens pattern binding front)
      ⟨some y, binding, x⟩ := by
  obtain ⟨t, ht, hbegins⟩ := hhead
  have hne : t ≠ .symbol .closeBrace ∧ t ≠ .word "_" := by
    refine ⟨?_, ?_⟩
    · rintro rfl
      rcases hbegins with h | h <;> cases h
    · rintro rfl
      exact hbegins rfl
  refine ⟨⟨t, by simp [armTokens, List.head?_append, ht], hne.1⟩, fun s following hs => ?_⟩
  have hrest := gives_armRest hbinding hbody (some y) (follows_item (hs.imp_right .inr) _ _ following)
  have hfollows : Follows context.records 1 pattern
      ((binding.elim [] fun n => [.word "as", .word n]) ++ .symbol .arrow ::
        (front ++ .symbol s :: following)) := by
    cases binding with
    | none => exact follows_symbol (by decide) (by decide) (by decide) _ _ _
    | some n => exact follows_word "as" (by decide) _ _ _
  rw [armTokens, List.append_assoc, List.append_assoc]
  refine (gives_eatWord_other ?_).bind (gives_ite_neg (by simp)
    (((hpattern _ hfollows).map some).bind hrest))
  rw [List.head?_append, ht]
  simpa using hne.2

end Items

section Lists
variable {lists : List (List Token)} {list : List Token} (hlist : Listed lists list)
include hlist

theorem gives_primary_call {callee : List Token} {function : String} (hcallee : Callee callee function)
    {args : List Expr}
    (h : List.Forall₂ (GivesItem (expressionAt levels) { context with records := true } k
      .closeParen) lists args) (following : List Token) :
    Gives (primary (expressionAt levels)) context k
      (callee ++ .symbol .openParen :: (list ++ .symbol .closeParen :: following))
      (.call function args) k following := by
  have hcall : Gives (callOf (expressionAt levels) function) context k
      (.symbol .openParen :: (list ++ .symbol .closeParen :: following)) (.call function args) k
      following :=
    (gives_expect .openParen).bind
      ((gives_delimited (by decide) hlist h following).withRecords.bind (gives_pure _))
  cases hcallee with
  | name hn =>
    exact gives_primary_reference hn ((gives_identifier hn _).bind
      ((gives_eat_other (by simp)).bind (gives_ite_neg (by simp) (gives_peek.bind hcall))))
  | path hn hm =>
    exact gives_primary_reference hn ((gives_identifier hn _).bind ((gives_eat _).bind
      (gives_ite_pos rfl ((gives_identifier hm _).bind (gives_peek.bind hcall)))))

theorem gives_primary_record (hrecords : context.records = true) {owner : String}
    (howner : owner ∉ keywords) {fields : List (String × Expr)}
    (h : List.Forall₂ (GivesItem (labelled (expressionAt levels) "field name")
      { context with records := true } k .closeBrace) lists fields) (following : List Token) :
    Gives (primary (expressionAt levels)) context k
      (.word owner :: .symbol .openBrace :: (list ++ .symbol .closeBrace :: following))
      (.record owner fields) k following := by
  have hfields := (gives_delimited (by decide) hlist h following).withRecords
  refine gives_primary_reference howner ((gives_identifier howner _).bind
    ((gives_eat_other (by simp)).bind (gives_ite_neg (by simp) (gives_peek.bind (gives_read.bind
      (gives_ite_pos hrecords ?_))))))
  exact (gives_expect .openBrace).bind (hfields.bind (gives_pure _))

theorem gives_primary_select
    (hscrutinee : ReadsInner levels { context with records := false } k front x)
    {arms : List (MatchArm Expr)} (hne : arms ≠ [])
    (h : List.Forall₂ (GivesItem (arm (expressionAt levels)) { context with records := true } k
      .closeBrace) lists arms) (following : List Token) :
    Gives (primary (expressionAt levels)) context k
      (.word "match" :: (front ++ .symbol .openBrace :: (list ++ .symbol .closeBrace :: following)))
      (.select x arms) k following := by
  have hbrace : Follows false 1 front
      (.symbol .openBrace :: (list ++ .symbol .closeBrace :: following)) := by
    refine ⟨fun t ht => ?_, fun h => Bool.noConfusion h, fun _ a rest => by simp⟩
    cases ht
    decide
  have harms := (gives_delimited (by decide) hlist h following).withRecords
  refine gives_peek.bind (gives_ite_pos rfl ((gives_skip _).bind
    ((hscrutinee _ hbrace).withRecords.bind ((gives_expect .openBrace).bind (harms.bind
      (gives_ite_neg ?_ (gives_pure _)))))))
  simpa using hne

end Lists

end Expr
end TypedFlow
