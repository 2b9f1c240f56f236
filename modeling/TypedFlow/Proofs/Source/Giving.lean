import Mathlib.Data.List.Forall2
import TypedFlow.Proofs.Source.Scanning

/-!
# What readers give

What a reader gives on known tokens, and which tokens and levels it leaves. Positions do not matter
for it. There is one rule for each combinator.
-/
namespace TypedFlow.Reader
variable {α β : Type} {context : ReaderContext} {levels levels' levels'' : Nat}
  {tokens tokens' tokens'' : List Token} {a : α} {b : β}

/-- The reader takes the tokens and the levels that come first to those that come last, and gives
the result between them. -/
def Gives (r : Reader α) (context : ReaderContext) (levels : Nat) (tokens : List Token) (a : α)
    (levels' : Nat) (tokens' : List Token) : Prop :=
  ∀ input : List PlacedToken, input.map (·.token) = tokens →
    ∃ output : List PlacedToken, output.map (·.token) = tokens' ∧
      r context ⟨input, levels⟩ = .ok (a, ⟨output, levels'⟩)

theorem gives_pure (a : α) : Gives (pure a) context levels tokens a levels tokens :=
  fun input h => ⟨input, h, rfl⟩

theorem Gives.bind {r : Reader α} {f : α → Reader β}
    (h : Gives r context levels tokens a levels' tokens')
    (h' : Gives (f a) context levels' tokens' b levels'' tokens'') :
    Gives (r >>= f) context levels tokens b levels'' tokens'' := by
  intro input hinput
  obtain ⟨middle, hmiddle, hr⟩ := h input hinput
  obtain ⟨output, houtput, hf⟩ := h' middle hmiddle
  refine ⟨output, houtput, ?_⟩
  change (r context ⟨input, levels⟩ >>= fun p => f p.1 context p.2) = _
  rw [hr]
  exact hf

theorem Gives.map {r : Reader α} (f : α → β) (h : Gives r context levels tokens a levels' tokens') :
    Gives (f <$> r) context levels tokens (f a) levels' tokens' :=
  h.bind (f := fun a => pure (f a)) (gives_pure (f a))

theorem gives_peek : Gives peek context levels tokens tokens.head? levels tokens := by
  rintro input rfl
  refine ⟨input, rfl, ?_⟩
  rw [List.head?_map]
  rfl

theorem gives_peekSecond :
    Gives peekSecond context levels tokens tokens.tail.head? levels tokens := by
  rintro input rfl
  refine ⟨input, rfl, ?_⟩
  rw [← List.map_tail, List.head?_map]
  rfl

theorem gives_skip (t : Token) : Gives skip context levels (t :: tokens) () levels tokens := by
  intro input hinput
  refine ⟨input.tail, ?_, rfl⟩
  rw [List.map_tail, hinput]
  rfl

theorem gives_read : Gives read context levels tokens context levels tokens :=
  fun input h => ⟨input, h, rfl⟩

theorem gives_ite_pos {c : Prop} [Decidable c] {r r' : Reader α} (hc : c)
    (h : Gives r context levels tokens a levels' tokens') :
    Gives (if c then r else r') context levels tokens a levels' tokens' := by
  rw [if_pos hc]
  exact h

theorem gives_ite_neg {c : Prop} [Decidable c] {r r' : Reader α} (hc : ¬ c)
    (h : Gives r' context levels tokens a levels' tokens') :
    Gives (if c then r else r') context levels tokens a levels' tokens' := by
  rw [if_neg hc]
  exact h

theorem gives_eat (s : Symbol) :
    Gives (eat s) context levels (.symbol s :: tokens) true levels tokens :=
  gives_peek.bind (gives_ite_pos rfl ((gives_skip _).bind (gives_pure true)))

theorem gives_eat_other {s : Symbol} (h : tokens.head? ≠ some (.symbol s)) :
    Gives (eat s) context levels tokens false levels tokens :=
  gives_peek.bind (gives_ite_neg h (gives_pure false))

theorem gives_expect (s : Symbol) :
    Gives (expect s) context levels (.symbol s :: tokens) () levels tokens :=
  (gives_eat s).bind (gives_pure ())

theorem gives_eatWord (w : String) :
    Gives (eatWord w) context levels (.word w :: tokens) true levels tokens :=
  gives_peek.bind (gives_ite_pos rfl ((gives_skip _).bind (gives_pure true)))

theorem gives_eatWord_other {w : String} (h : tokens.head? ≠ some (.word w)) :
    Gives (eatWord w) context levels tokens false levels tokens :=
  gives_peek.bind (gives_ite_neg h (gives_pure false))

theorem gives_identifier {n : String} (hn : n ∉ keywords) (role : String) :
    Gives (identifier role) context levels (.word n :: tokens) n levels tokens := by
  have hkeyword : ¬ keywords.contains n = true := fun h => hn (List.contains_iff_mem.1 h)
  exact gives_peek.bind (gives_ite_neg hkeyword ((gives_skip _).bind (gives_pure n)))

theorem Gives.withRecords {r : Reader α} {allowed : Bool}
    (h : Gives r { context with records := allowed } levels tokens a levels' tokens') :
    Gives (withRecords allowed r) context levels tokens a levels' tokens' :=
  h

theorem gives_descend : Gives descend context (levels + 1) tokens () levels tokens :=
  fun input h => ⟨input, h, rfl⟩

theorem Gives.nested {r : Reader α} (h : Gives r context levels tokens a levels' tokens') :
    Gives (nested r) context (levels + 1) tokens a (levels + 1) tokens' := by
  intro input hinput
  obtain ⟨output, houtput, hr⟩ := h input hinput
  refine ⟨output, houtput, ?_⟩
  change (r context ⟨input, levels⟩ >>= fun p => Except.ok (p.1, { p.2 with levels := levels + 1 })) = _
  rw [hr]
  rfl

/-- The reader gives the value of an item on its tokens, whether a comma or the end comes next. -/
structure GivesItem (item : Reader α) (context : ReaderContext) (levels : Nat) (close : Symbol)
    (tokens : List Token) (a : α) : Prop where
  head : ∃ t, tokens.head? = some t ∧ t ≠ .symbol close
  gives : ∀ s following, s = .comma ∨ s = close →
    Gives item context levels (tokens ++ .symbol s :: following) a levels (.symbol s :: following)

theorem GivesItem.not_close {item : Reader α} {close : Symbol}
    (h : GivesItem item context levels close tokens a) (following : List Token) :
    (tokens ++ following).head? ≠ some (.symbol close) := by
  obtain ⟨t, ht, hne⟩ := h.head
  rw [List.head?_append, ht]
  simpa using hne

/-- Items between commas, the last of which may be followed by one. -/
inductive Listed : List (List Token) → List Token → Prop
  | nil : Listed [] []
  | last (item : List Token) : Listed [item] item
  | cons {items : List (List Token)} {tokens : List Token} (item : List Token) :
      Listed items tokens → Listed (item :: items) (item ++ .symbol .comma :: tokens)

theorem Listed.length_le {items : List (List Token)} (h : Listed items tokens) :
    items.length ≤ tokens.length + 1 := by
  induction h with
  | nil => simp
  | last item => simp
  | cons item _ ih =>
    simp only [List.length_append, List.length_cons]
    omega

theorem listed_intercalate (items : List (List Token)) :
    Listed items ([Token.symbol .comma].intercalate items) := by
  induction items with
  | nil => exact .nil
  | cons item items ih =>
    cases items with
    | nil =>
      rw [List.intercalate_singleton]
      exact .last item
    | cons next items =>
      rw [List.intercalate_cons_cons, List.append_assoc]
      exact .cons item ih

theorem gives_itemsBefore {item : Reader α} {close : Symbol} (hclose : close ≠ .comma)
    {lists : List (List Token)} {list : List Token} {values : List α} (hlist : Listed lists list)
    (h : List.Forall₂ (GivesItem item context levels close) lists values) {rounds : Nat}
    (hrounds : lists.length ≤ rounds) (following : List Token) :
    Gives (itemsBefore close item rounds) context levels (list ++ .symbol close :: following) values
      levels (.symbol close :: following) := by
  induction hlist generalizing values rounds with
  | nil =>
    cases h
    cases rounds with
    | zero => exact gives_pure []
    | succ rounds => exact gives_peek.bind (gives_ite_pos rfl (gives_pure []))
  | last list =>
    obtain ⟨value, values, hfirst, hnone, rfl⟩ := List.forall₂_cons_left_iff.1 h
    cases hnone
    obtain ⟨rounds, rfl⟩ : ∃ n, rounds = n + 1 := Nat.exists_eq_add_one.2 hrounds
    have hcomma : (Token.symbol close :: following).head? ≠ some (.symbol .comma) := by
      simpa using hclose
    exact gives_peek.bind (gives_ite_neg (hfirst.not_close _) ((hfirst.gives _ _ (.inr rfl)).bind
      ((gives_eat_other hcomma).bind (gives_pure [value]))))
  | cons list _ ih =>
    obtain ⟨value, values, hfirst, hothers, rfl⟩ := List.forall₂_cons_left_iff.1 h
    obtain ⟨rounds, rfl⟩ : ∃ n, rounds = n + 1 :=
      Nat.exists_eq_add_one.2 (Nat.lt_of_lt_of_le (Nat.succ_pos _) hrounds)
    have hrest := ih hothers (Nat.le_of_succ_le_succ hrounds)
    rw [List.append_assoc, List.cons_append]
    exact gives_peek.bind (gives_ite_neg (hfirst.not_close _) ((hfirst.gives _ _ (.inl rfl)).bind
      ((gives_eat .comma).bind (hrest.map (value :: ·)))))

theorem gives_delimited {item : Reader α} {close : Symbol} (hclose : close ≠ .comma)
    {lists : List (List Token)} {list : List Token} {values : List α} (hlist : Listed lists list)
    (h : List.Forall₂ (GivesItem item context levels close) lists values) (following : List Token) :
    Gives (delimited close item) context levels (list ++ .symbol close :: following) values levels
      following := by
  intro input hinput
  have hlength : lists.length ≤ input.length + 1 := by
    have hle := hlist.length_le
    have hmap := congrArg List.length hinput
    simp only [List.length_map, List.length_append, List.length_cons] at hmap
    omega
  have hgives : Gives (do
      let items ← itemsBefore close item (input.length + 1)
      expect close
      return items) context levels (list ++ .symbol close :: following) values levels following :=
    (gives_itemsBefore hclose hlist h hlength following).bind
      ((gives_expect close).bind (gives_pure values))
  exact hgives input hinput

theorem gives_expectEnd : Gives expectEnd context levels [] () levels [] :=
  gives_peek.bind (gives_pure ())

/-- What is given on the tokens of a source text is read from it. -/
theorem Gives.run {r : Reader α} {source : String} (hscans : Source.Scans source.toList tokens)
    (h : ∀ finish, Gives r ⟨finish, true⟩ maxNesting tokens a levels' tokens') :
    r.run source = .ok a := by
  obtain ⟨list, hlist, htokens⟩ := hscans .start
  obtain ⟨output, -, hr⟩ := h list.finish list.tokens htokens
  unfold Reader.run Source.tokenize
  rw [hlist]
  change (r ⟨list.finish, true⟩ ⟨list.tokens, maxNesting⟩ >>= fun p => Except.ok p.1) = _
  rw [hr]
  rfl

end TypedFlow.Reader
