import TypedFlow.Proofs.Source.Words

/-!
# What readers yield

A reader that is given properly spelled tokens and succeeds leaves such tokens, and its result has
some property. The rules below follow the combinators, so that a grammar is gone through by
mentioning its parts.
-/
namespace TypedFlow.Reader
variable {α β : Type} {P : α → Prop} {Q : β → Prop}

def Spelled (tokens : List PlacedToken) : Prop := ∀ t ∈ tokens, t.token.Spelled

/-- Where the reader succeeds on spelled tokens, its result is as said and the rest is spelled. -/
def Yields (r : Reader α) (P : α → Prop) : Prop :=
  ∀ context state a state', r context state = .ok (a, state') → Spelled state.tokens →
    P a ∧ Spelled state'.tokens

theorem Spelled.tail {tokens : List PlacedToken} (h : Spelled tokens) : Spelled tokens.tail :=
  fun t ht => h t (List.mem_of_mem_tail ht)

theorem yields_pure {a : α} (h : P a) : Yields (pure a) P := by
  intro _ _ _ _ hrun hs
  cases hrun
  exact ⟨h, hs⟩

theorem Yields.bind {r : Reader α} {f : α → Reader β} (hr : Yields r P)
    (hf : ∀ a, P a → Yields (f a) Q) : Yields (r >>= f) Q := by
  intro context state b state' hrun hs
  change (r context state >>= fun p => f p.1 context p.2) = .ok (b, state') at hrun
  cases h : r context state with
  | error e =>
    rw [h] at hrun
    cases hrun
  | ok p =>
    rw [h] at hrun
    obtain ⟨ha, hs'⟩ := hr context state p.1 p.2 h hs
    exact hf p.1 ha context p.2 b state' hrun hs'

theorem Yields.map {r : Reader α} {f : α → β} (hr : Yields r P) (hf : ∀ a, P a → Q (f a)) :
    Yields (f <$> r) Q :=
  hr.bind fun a ha => yields_pure (hf a ha)

theorem yields_fail (cause : ParseCause) : Yields (fail cause : Reader α) P := by
  intro _ _ _ _ hrun
  cases hrun

theorem yields_expected (what : String) : Yields (expected what : Reader α) P := by
  intro _ _ _ _ hrun
  cases hrun

theorem yields_peek : Yields peek fun next => ∀ t ∈ next, t.Spelled := by
  intro _ state _ _ hrun hs
  cases hrun
  refine ⟨fun t ht => ?_, hs⟩
  obtain ⟨placed, hplaced, rfl⟩ := Option.map_eq_some_iff.1 ht
  exact hs placed (List.mem_of_head? hplaced)

theorem yields_peekSecond : Yields peekSecond fun _ => True := by
  intro _ _ _ _ hrun hs
  cases hrun
  exact ⟨trivial, hs⟩

theorem yields_skip : Yields skip fun _ => True := by
  intro _ _ _ _ hrun hs
  cases hrun
  exact ⟨trivial, hs.tail⟩

theorem yields_get : Yields (get : Reader ReaderState) fun _ => True := by
  intro _ _ _ _ hrun hs
  cases hrun
  exact ⟨trivial, hs⟩

theorem yields_read : Yields (read : Reader ReaderContext) fun _ => True := by
  intro _ _ _ _ hrun hs
  cases hrun
  exact ⟨trivial, hs⟩

theorem yields_levels (levels : Nat) :
    Yields (modify fun s => { s with levels }) fun _ => True := by
  intro _ _ _ _ hrun hs
  cases hrun
  exact ⟨trivial, hs⟩

theorem yields_ite {c : Prop} [Decidable c] {r r' : Reader α} (h : c → Yields r P)
    (h' : ¬ c → Yields r' P) : Yields (if c then r else r') P := by
  by_cases hc : c
  · rw [if_pos hc]
    exact h hc
  · rw [if_neg hc]
    exact h' hc

/-- A reader that fails first under some condition goes on only where it does not hold. -/
theorem yields_unless {c : Prop} [Decidable c] {cause : ParseCause} {rest : PUnit → Reader α}
    (h : ¬ c → Yields (rest ⟨⟩) P) : Yields (if c then fail cause >>= rest else rest ⟨⟩) P :=
  yields_ite (fun _ => (yields_fail (P := fun _ => False) cause).bind fun _ h => h.elim) h

theorem yields_eat (s : Symbol) : Yields (eat s) fun _ => True :=
  yields_peek.bind fun _ _ => yields_ite
    (fun _ => yields_skip.bind fun _ _ => yields_pure trivial) fun _ => yields_pure trivial

theorem yields_eatWord (w : String) : Yields (eatWord w) fun _ => True :=
  yields_peek.bind fun _ _ => yields_ite
    (fun _ => yields_skip.bind fun _ _ => yields_pure trivial) fun _ => yields_pure trivial

theorem yields_expect (s : Symbol) : Yields (expect s) fun _ => True :=
  (yields_eat s).bind fun _ _ => yields_ite (fun _ => yields_pure trivial) fun _ => yields_expected _

theorem yields_identifier (role : String) : Yields (identifier role) IsName := by
  refine yields_peek.bind fun next hnext => ?_
  split
  · rename_i n
    refine yields_ite (fun _ => yields_expected _) fun hkeyword => ?_
    have hword : IsWord n := hnext (.word n) rfl
    exact yields_skip.bind fun _ _ =>
      yields_pure ⟨hword, fun hmem => hkeyword (List.contains_iff_mem.2 hmem)⟩
  · exact yields_expected _

theorem Yields.withRecords {r : Reader α} (h : Yields r P) (allowed : Bool) :
    Yields (withRecords allowed r) P :=
  fun _ state a state' hrun hs => h _ state a state' hrun hs

theorem yields_descend : Yields descend fun _ => True := by
  refine yields_get.bind fun state _ => ?_
  cases state.levels with
  | zero => exact yields_fail _
  | succ levels => exact yields_levels levels

theorem Yields.nested {r : Reader α} (h : Yields r P) : Yields (nested r) P :=
  yields_get.bind fun state _ => yields_descend.bind fun _ _ => h.bind fun _ ha =>
    (yields_levels state.levels).bind fun _ _ => yields_pure ha

theorem Yields.itemsBefore {item : Reader α} (h : Yields item P) (close : Symbol) (rounds : Nat) :
    Yields (itemsBefore close item rounds) fun items => ∀ a ∈ items, P a := by
  induction rounds with
  | zero => exact yields_pure fun _ ha => absurd ha List.not_mem_nil
  | succ rounds ih =>
    refine yields_peek.bind fun _ _ => yields_ite (fun _ => ?_) fun _ => ?_
    · exact yields_pure fun _ ha => absurd ha List.not_mem_nil
    · refine h.bind fun first hfirst => (yields_eat .comma).bind fun _ _ => yields_ite (fun _ => ?_) ?_
      · exact ih.bind fun rest hrest => yields_pure (List.forall_mem_cons.2 ⟨hfirst, hrest⟩)
      · exact fun _ => yields_pure fun a ha => List.mem_singleton.1 ha ▸ hfirst

theorem Yields.delimited {item : Reader α} (h : Yields item P) (close : Symbol) :
    Yields (delimited close item) fun items => ∀ a ∈ items, P a :=
  yields_get.bind fun _ _ => (h.itemsBefore close _).bind fun _ hitems =>
    (yields_expect close).bind fun _ _ => yields_pure hitems

/-- A reader that succeeds on a source text has done so on its tokens, with all levels left. -/
theorem exists_of_run {r : Reader α} {source : String} {a : α} (hrun : r.run source = .ok a) :
    ∃ list state', Source.tokenize source = .ok list ∧
      r ⟨list.finish, true⟩ ⟨list.tokens, maxNesting⟩ = .ok (a, state') := by
  unfold Reader.run at hrun
  cases htokens : Source.tokenize source with
  | error e =>
    rw [htokens] at hrun
    cases hrun
  | ok list =>
    rw [htokens] at hrun
    change (r ⟨list.finish, true⟩ ⟨list.tokens, maxNesting⟩ >>= fun p => Except.ok p.1) = .ok a at hrun
    cases hresult : r ⟨list.finish, true⟩ ⟨list.tokens, maxNesting⟩ with
    | error e =>
      rw [hresult] at hrun
      cases hrun
    | ok p =>
      rw [hresult] at hrun
      cases hrun
      exact ⟨list, p.2, rfl, hresult⟩

/-- What is read from a source text comes from spelled tokens. -/
theorem Yields.run {r : Reader α} (h : Yields r P) {source : String} {a : α}
    (hrun : r.run source = .ok a) : P a := by
  obtain ⟨list, state', htokens, hresult⟩ := exists_of_run hrun
  exact (h _ _ a state' hresult (Source.spelled_tokenize htokens)).1

end TypedFlow.Reader
