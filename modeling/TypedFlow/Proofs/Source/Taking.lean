import TypedFlow.Proofs.Source.Giving

/-!
# What readers take

A reader that has succeeded is gone back through part by part, to the tokens that each part has
taken. Positions and levels do not matter for it.
-/
namespace TypedFlow.Reader
variable {α β : Type} {context : ReaderContext} {tokens tokens' tokens'' : List Token} {a : α} {b : β}

/-- The reader has succeeded from the tokens that come first to those that come last. -/
def Takes (r : Reader α) (context : ReaderContext) (tokens : List Token) (a : α)
    (tokens' : List Token) : Prop :=
  ∃ (input output : List PlacedToken) (levels levels' : Nat), input.map (·.token) = tokens ∧
    output.map (·.token) = tokens' ∧ r context ⟨input, levels⟩ = .ok (a, ⟨output, levels'⟩)

section Rules
variable {r r' : Reader α} {f : α → Reader β}

theorem takes_pure {a' : α} (h : Takes (pure a') context tokens a tokens') :
    a = a' ∧ tokens' = tokens := by
  obtain ⟨input, output, levels, levels', rfl, rfl, hrun⟩ := h
  cases hrun
  exact ⟨rfl, rfl⟩

theorem Takes.of_bind (h : Takes (r >>= f) context tokens b tokens'') :
    ∃ a tokens', Takes r context tokens a tokens' ∧ Takes (f a) context tokens' b tokens'' := by
  obtain ⟨input, output, levels, levels', hinput, houtput, hrun⟩ := h
  change (r context ⟨input, levels⟩ >>= fun p => f p.1 context p.2) = _ at hrun
  cases hr : r context ⟨input, levels⟩ with
  | error e =>
    rw [hr] at hrun
    cases hrun
  | ok p =>
    obtain ⟨a, middle, left⟩ := p
    rw [hr] at hrun
    exact ⟨a, _, ⟨input, middle, levels, left, hinput, rfl, hr⟩,
      ⟨middle, output, left, levels', rfl, houtput, hrun⟩⟩

theorem Takes.of_bind_pure {g : α → β}
    (h : Takes (r >>= fun a => pure (g a)) context tokens b tokens') :
    ∃ a, Takes r context tokens a tokens' ∧ b = g a := by
  obtain ⟨a, _, hr, hpure⟩ := h.of_bind
  obtain ⟨rfl, rfl⟩ := takes_pure hpure
  exact ⟨a, hr, rfl⟩

theorem not_takes_fail {cause : ParseCause} : ¬ Takes (fail cause) context tokens a tokens' := by
  rintro ⟨input, output, levels, levels', -, -, hrun⟩
  cases hrun

theorem not_takes_expected {what : String} : ¬ Takes (expected what) context tokens a tokens' := by
  rintro ⟨input, output, levels, levels', -, -, hrun⟩
  cases hrun

theorem Takes.of_ite {c : Prop} [Decidable c]
    (h : Takes (if c then r else r') context tokens a tokens') :
    c ∧ Takes r context tokens a tokens' ∨ ¬ c ∧ Takes r' context tokens a tokens' := by
  by_cases hc : c
  · rw [if_pos hc] at h
    exact .inl ⟨hc, h⟩
  · rw [if_neg hc] at h
    exact .inr ⟨hc, h⟩

/-- Where a reader fails first under some condition, the condition has not held. -/
theorem Takes.of_unless {c : Prop} [Decidable c] {cause : ParseCause} {rest : PUnit → Reader α}
    (h : Takes (if c then fail cause >>= rest else rest ⟨⟩) context tokens a tokens') :
    ¬ c ∧ Takes (rest ⟨⟩) context tokens a tokens' := by
  rcases h.of_ite with ⟨-, h⟩ | h
  · obtain ⟨_, _, hfail, -⟩ := h.of_bind
    exact absurd hfail not_takes_fail
  · exact h

theorem Takes.of_peek {f : Option Token → Reader β} (h : Takes (peek >>= f) context tokens b tokens') :
    Takes (f tokens.head?) context tokens b tokens' := by
  obtain ⟨input, output, levels, levels', rfl, houtput, hrun⟩ := h
  rw [List.head?_map]
  exact ⟨input, output, levels, levels', rfl, houtput, hrun⟩

theorem Takes.of_peekSecond {f : Option Token → Reader β}
    (h : Takes (peekSecond >>= f) context tokens b tokens') :
    Takes (f tokens.tail.head?) context tokens b tokens' := by
  obtain ⟨input, output, levels, levels', rfl, houtput, hrun⟩ := h
  rw [← List.map_tail, List.head?_map]
  exact ⟨input, output, levels, levels', rfl, houtput, hrun⟩

theorem Takes.of_skip {f : Unit → Reader β} (h : Takes (skip >>= f) context tokens b tokens') :
    Takes (f ()) context tokens.tail b tokens' := by
  obtain ⟨input, output, levels, levels', rfl, houtput, hrun⟩ := h
  exact ⟨input.tail, output, levels, levels', List.map_tail, houtput, hrun⟩

theorem Takes.of_read {f : ReaderContext → Reader β} (h : Takes (read >>= f) context tokens b tokens') :
    Takes (f context) context tokens b tokens' := h

theorem Takes.of_withRecords {allowed : Bool}
    (h : Takes (withRecords allowed r) context tokens a tokens') :
    Takes r { context with records := allowed } tokens a tokens' := h

theorem Takes.of_descend {f : Unit → Reader β} (h : Takes (descend >>= f) context tokens b tokens') :
    Takes (f ()) context tokens b tokens' := by
  obtain ⟨input, output, levels, levels', hinput, houtput, hrun⟩ := h
  cases levels with
  | zero => cases hrun
  | succ levels => exact ⟨input, output, levels, levels', hinput, houtput, hrun⟩

theorem Takes.of_nested (h : Takes (nested r) context tokens a tokens') :
    Takes r context tokens a tokens' := by
  obtain ⟨input, output, levels, levels', hinput, houtput, hrun⟩ := h
  cases levels with
  | zero => cases hrun
  | succ levels =>
    change (r context ⟨input, levels⟩ >>= fun p =>
      Except.ok (p.1, { p.2 with levels := levels + 1 })) = _ at hrun
    cases hr : r context ⟨input, levels⟩ with
    | error e =>
      rw [hr] at hrun
      cases hrun
    | ok p =>
      rw [hr] at hrun
      cases hrun
      exact ⟨input, _, levels, p.2.levels, hinput, houtput, hr⟩

end Rules

section Tokens

theorem exists_of_head? {t : Token} (h : tokens.head? = some t) : tokens = t :: tokens.tail := by
  obtain ⟨rest, rfl⟩ := List.head?_eq_some_iff.1 h
  rfl

theorem Takes.of_eat {s : Symbol} {f : Bool → Reader β}
    (h : Takes (eat s >>= f) context tokens b tokens') :
    (tokens = .symbol s :: tokens.tail ∧ Takes (f true) context tokens.tail b tokens') ∨
      tokens.head? ≠ some (.symbol s) ∧ Takes (f false) context tokens b tokens' := by
  obtain ⟨eaten, middle, heat, hrest⟩ := h.of_bind
  rcases heat.of_peek.of_ite with ⟨hhead, heat⟩ | ⟨hhead, heat⟩
  · obtain ⟨rfl, rfl⟩ := takes_pure heat.of_skip
    exact .inl ⟨exists_of_head? hhead, hrest⟩
  · obtain ⟨rfl, rfl⟩ := takes_pure heat
    exact .inr ⟨hhead, hrest⟩

theorem Takes.of_eatWord {w : String} {f : Bool → Reader β}
    (h : Takes (eatWord w >>= f) context tokens b tokens') :
    (tokens = .word w :: tokens.tail ∧ Takes (f true) context tokens.tail b tokens') ∨
      tokens.head? ≠ some (.word w) ∧ Takes (f false) context tokens b tokens' := by
  obtain ⟨eaten, middle, heat, hrest⟩ := h.of_bind
  rcases heat.of_peek.of_ite with ⟨hhead, heat⟩ | ⟨hhead, heat⟩
  · obtain ⟨rfl, rfl⟩ := takes_pure heat.of_skip
    exact .inl ⟨exists_of_head? hhead, hrest⟩
  · obtain ⟨rfl, rfl⟩ := takes_pure heat
    exact .inr ⟨hhead, hrest⟩

theorem Takes.of_expect {s : Symbol} {f : Unit → Reader β}
    (h : Takes (expect s >>= f) context tokens b tokens') :
    tokens = .symbol s :: tokens.tail ∧ Takes (f ()) context tokens.tail b tokens' := by
  obtain ⟨_, middle, hexpect, h⟩ := h.of_bind
  rcases hexpect.of_eat with ⟨htokens, hexpect⟩ | ⟨-, hexpect⟩
  · obtain ⟨-, rfl⟩ := takes_pure hexpect
    exact ⟨htokens, h⟩
  · exact absurd hexpect not_takes_expected

theorem Takes.of_identifier {role : String} {f : String → Reader β}
    (h : Takes (identifier role >>= f) context tokens b tokens') :
    ∃ n, n ∉ keywords ∧ tokens = .word n :: tokens.tail ∧
      Takes (f n) context tokens.tail b tokens' := by
  obtain ⟨n, middle, hname, h⟩ := h.of_bind
  replace hname := hname.of_peek
  split at hname
  · rename_i w hhead
    rcases hname.of_ite with ⟨-, hname⟩ | ⟨hkeyword, hname⟩
    · exact absurd hname not_takes_expected
    · obtain ⟨rfl, rfl⟩ := takes_pure hname.of_skip
      exact ⟨n, fun hmem => hkeyword (List.contains_iff_mem.2 hmem), exists_of_head? hhead, h⟩
  · exact absurd hname not_takes_expected

theorem Takes.of_expectEnd {f : Unit → Reader β}
    (h : Takes (expectEnd >>= f) context tokens b tokens') :
    tokens = [] ∧ Takes (f ()) context [] b tokens' := by
  obtain ⟨_, middle, hend, hrest⟩ := h.of_bind
  rcases hend.of_peek.of_ite with ⟨hnone, hend⟩ | ⟨-, hend⟩
  · obtain ⟨-, rfl⟩ := takes_pure hend
    have hnil : middle = [] := by simpa using hnone
    exact ⟨hnil, hnil ▸ hrest⟩
  · exact absurd hend not_takes_expected

end Tokens

section Lists
variable {ι : Type} {item : Reader α} {Good : ι → Prop} {list : ι → List Token} {value : ι → α}

/-- The reader takes items, each the tokens of a value. -/
def TakesItems (item : Reader α) (context : ReaderContext) (Good : ι → Prop)
    (list : ι → List Token) (value : ι → α) : Prop :=
  ∀ tokens a rest, Takes item context tokens a rest →
    ∃ i, Good i ∧ tokens = list i ++ rest ∧ a = value i

theorem TakesItems.itemsBefore (hitem : TakesItems item context Good list value) {close : Symbol}
    {rounds : Nat} {values : List α}
    (h : Takes (itemsBefore close item rounds) context tokens values tokens') :
    ∃ (items : List ι) (front : List Token), (∀ i ∈ items, Good i) ∧
      Listed (items.map list) front ∧ tokens = front ++ tokens' ∧ values = items.map value := by
  induction rounds generalizing tokens values with
  | zero =>
    obtain ⟨rfl, rfl⟩ := takes_pure h
    exact ⟨[], [], by simp, .nil, rfl, rfl⟩
  | succ rounds ih =>
    rcases h.of_peek.of_ite with ⟨-, h⟩ | ⟨-, h⟩
    · obtain ⟨rfl, rfl⟩ := takes_pure h
      exact ⟨[], [], by simp, .nil, rfl, rfl⟩
    · obtain ⟨first, middle, hfirst, h⟩ := h.of_bind
      obtain ⟨i, hi, rfl, rfl⟩ := hitem _ _ _ hfirst
      rcases h.of_eat with ⟨hcomma, h⟩ | ⟨-, h⟩
      · obtain ⟨others, hothers, rfl⟩ := h.of_bind_pure
        obtain ⟨items, front, hgood, hlisted, htail, rfl⟩ := ih hothers
        refine ⟨i :: items, list i ++ .symbol .comma :: front, List.forall_mem_cons.2 ⟨hi, hgood⟩,
          .cons (list i) hlisted, ?_, rfl⟩
        rw [hcomma, htail, List.append_assoc, List.cons_append]
      · obtain ⟨rfl, rfl⟩ := takes_pure h
        exact ⟨[i], list i, by simpa using hi, .last (list i), rfl, rfl⟩

theorem TakesItems.delimited (hitem : TakesItems item context Good list value) {close : Symbol}
    {values : List α} (h : Takes (delimited close item) context tokens values tokens') :
    ∃ (items : List ι) (front : List Token), (∀ i ∈ items, Good i) ∧
      Listed (items.map list) front ∧ tokens = front ++ .symbol close :: tokens' ∧
      values = items.map value := by
  obtain ⟨input, output, levels, levels', hinput, houtput, hrun⟩ := h
  have hitems : Takes (do
      let items ← Reader.itemsBefore close item (input.length + 1)
      expect close
      return items) context tokens values tokens' :=
    ⟨input, output, levels, levels', hinput, houtput, hrun⟩
  obtain ⟨found, middle, hfound, hclose⟩ := hitems.of_bind
  obtain ⟨htokens, hpure⟩ := hclose.of_expect
  obtain ⟨rfl, rfl⟩ := takes_pure hpure
  obtain ⟨items, front, hgood, hlisted, rfl, rfl⟩ := hitem.itemsBefore hfound
  exact ⟨items, front, hgood, hlisted, by rw [htokens, List.tail_cons], rfl⟩

end Lists

end TypedFlow.Reader
