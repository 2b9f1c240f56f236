import TypedFlow.Proofs.Effects
import TypedFlow.Source.Reader

/-!
# More tokens behind

A reader sees no further than the next token, or the token behind a minus. So it does the same where
more tokens come behind, as long as it stops before the end of what it was given; and it does the
same, at other positions, where everything is moved. What is said of a reader here follows its
combinators.
-/
namespace TypedFlow

def PlacedToken.move (f : Position → Position) (t : PlacedToken) : PlacedToken :=
  ⟨t.token, f t.position⟩

def ParseError.move (f : Position → Position) (e : ParseError) : ParseError :=
  ⟨f e.position, e.cause⟩

namespace Reader
variable {α β : Type}

/-- The tokens at other positions, with more of them behind. -/
def extended (f : Position → Position) (tokens more : List PlacedToken) : List PlacedToken :=
  tokens.map (·.move f) ++ more

/-- A reader that stops at these tokens does not see what comes behind them. -/
def Hides (rest : List PlacedToken) : Prop :=
  rest ≠ [] ∧ rest.map (·.token) ≠ [.symbol .minus]

/-- The reader does the same where more comes behind what it does not see the end of. It fails in
the same way where nothing more comes. -/
structure Extends (r : Reader α) : Prop where
  ok : ∀ {finish records tokens k a rest k'},
    r ⟨finish, records⟩ ⟨tokens, k⟩ = .ok (a, ⟨rest, k'⟩) →
      rest <:+ tokens ∧ ∀ f finish' more, (more ≠ [] → Hides rest) →
        r ⟨finish', records⟩ ⟨extended f tokens more, k⟩ = .ok (a, ⟨extended f rest more, k'⟩)
  error : ∀ {finish records tokens k e}, r ⟨finish, records⟩ ⟨tokens, k⟩ = .error e →
    ∀ f, r ⟨f finish, records⟩ ⟨extended f tokens [], k⟩ = .error (e.move f)

/-- The symbols that end what they stand behind. -/
def closing : List Symbol := [.closeBrace, .closeParen, .semicolon]

def Closing (t : PlacedToken) : Prop := ∃ s ∈ closing, t.token = .symbol s

/-- The reader does the same whatever comes behind what it leaves. -/
structure Independent (r : Reader α) : Prop extends Extends r where
  any : ∀ {finish records tokens k a rest k'},
    r ⟨finish, records⟩ ⟨tokens, k⟩ = .ok (a, ⟨rest, k'⟩) → ∀ f finish' more,
      r ⟨finish', records⟩ ⟨extended f tokens more, k⟩ = .ok (a, ⟨extended f rest more, k'⟩)

/-- The reader takes nothing, and does not look at what is there. -/
structure Settled (r : Reader α) : Prop extends Independent r where
  stays : ∀ {context tokens k a rest k'}, r context ⟨tokens, k⟩ = .ok (a, ⟨rest, k'⟩) →
    rest = tokens

/-- The last token that the reader takes is a closing one, and it does not look any further. -/
structure Closes (r : Reader α) : Prop extends Independent r where
  ends : ∀ {context tokens k a rest k'}, r context ⟨tokens, k⟩ = .ok (a, ⟨rest, k'⟩) →
    ∃ front t, tokens = front ++ t :: rest ∧ Closing t

/-- The reader gives back the levels that it uses. -/
def Keeps (r : Reader α) : Prop := ∀ context state a state',
  r context state = .ok (a, state') → state'.levels = state.levels

theorem Hides.of_suffix {rest tokens : List PlacedToken} (h : Hides rest)
    (hsuffix : rest <:+ tokens) : Hides tokens := by
  obtain ⟨front, rfl⟩ := hsuffix
  cases front with
  | nil => exact h
  | cons t front =>
    refine ⟨List.cons_ne_nil _ _, fun heq => h.1 ?_⟩
    have hnil : front ++ rest = [] := List.map_eq_nil_iff.1 (List.cons.inj heq).2
    exact (List.append_eq_nil_iff.1 hnil).2

theorem Closing.hides {t : PlacedToken} (h : Closing t) (front rest : List PlacedToken) :
    Hides (front ++ t :: rest) := by
  obtain ⟨s, hs, ht⟩ := h
  have hrest : Hides (t :: rest) := by
    refine ⟨List.cons_ne_nil _ _, fun heq => ?_⟩
    have hminus : Token.symbol s = .symbol .minus := ht.symm.trans (List.cons.inj heq).1
    cases hminus
    exact absurd hs (by decide)
  exact hrest.of_suffix (List.suffix_append _ _)

/-- Where nothing is left to hide it, nothing more comes. -/
theorem eq_nil_of_hides {more : List PlacedToken} (h : more ≠ [] → Hides []) : more = [] :=
  Classical.byContradiction fun hne => (h hne).1 rfl

/-- A reader that goes on in the same way gives the same. -/
theorem bind_congr_run {r : Reader α} {g g' : α → Reader β} {context : ReaderContext}
    {state : ReaderState}
    (h : ∀ a state', r context state = .ok (a, state') → g a context state' = g' a context state') :
    (r >>= g) context state = (r >>= g') context state := by
  change (r context state >>= fun p => g p.1 context p.2) =
    (r context state >>= fun p => g' p.1 context p.2)
  cases hr : r context state with
  | error e => rfl
  | ok p => exact h p.1 p.2 hr

theorem length_extended (f : Position → Position) (tokens more : List PlacedToken) :
    (extended f tokens more).length = tokens.length + more.length := by
  rw [extended, List.length_append, List.length_map]

theorem length_le_extended (f : Position → Position) (tokens more : List PlacedToken) :
    tokens.length ≤ (extended f tokens more).length :=
  length_extended f tokens more ▸ Nat.le_add_right _ _

section Extends

theorem extends_pure (a : α) : Extends (pure a) where
  ok hrun := by
    cases hrun
    exact ⟨List.suffix_refl _, fun _ _ _ _ => rfl⟩
  error hrun := by cases hrun

theorem Extends.bind {r : Reader α} {g : α → Reader β} (hr : Extends r) (hg : ∀ a, Extends (g a)) :
    Extends (r >>= g) where
  ok {finish records tokens k b rest k'} hrun := by
    obtain ⟨⟨a, middle, left⟩, hfirst, hsecond⟩ := of_bind_eq_ok hrun
    obtain ⟨hmiddle, hr'⟩ := hr.ok hfirst
    obtain ⟨hrest, hg'⟩ := (hg a).ok hsecond
    refine ⟨hrest.trans hmiddle, fun f finish' more hmore => ?_⟩
    change (r _ _ >>= fun p => g p.1 _ p.2) = _
    rw [hr' f finish' more fun h => (hmore h).of_suffix hrest]
    exact hg' f finish' more hmore
  error {finish records tokens k e} hrun f := by
    change (r _ _ >>= fun p => g p.1 _ p.2) = _
    rcases of_bind_eq_error hrun with hfirst | ⟨⟨a, middle, left⟩, hfirst, hsecond⟩
    · rw [hr.error hfirst f]
      rfl
    · rw [(hr.ok hfirst).2 f (f finish) [] (absurd rfl)]
      exact (hg a).error hsecond f

theorem Extends.map {r : Reader α} (h : Extends r) (g : α → β) : Extends (g <$> r) :=
  h.bind fun a => extends_pure (g a)

theorem extends_fail (cause : ParseCause) : Extends (fail cause : Reader α) where
  ok hrun := by cases hrun
  error {finish records tokens k e} hrun f := by
    cases hrun
    cases tokens <;> rfl

theorem extends_ite {c : Prop} [Decidable c] {r r' : Reader α} (h : Extends r) (h' : Extends r') :
    Extends (if c then r else r') := by
  by_cases hc : c
  · rwa [if_pos hc]
  · rwa [if_neg hc]

theorem extends_peek : Extends peek where
  ok {finish records tokens k next rest k'} hrun := by
    cases hrun
    refine ⟨List.suffix_refl _, fun f finish' more hmore => ?_⟩
    cases tokens with
    | nil =>
      obtain rfl := eq_nil_of_hides hmore
      rfl
    | cons t tokens => rfl
  error hrun := by cases hrun

theorem extends_expected (what : String) : Extends (expected what : Reader α) :=
  extends_peek.bind fun _ => extends_fail _

theorem extends_skip : Extends skip where
  ok {finish records tokens k u rest k'} hrun := by
    cases hrun
    refine ⟨List.tail_suffix _, fun f finish' more hmore => ?_⟩
    cases tokens with
    | nil =>
      obtain rfl := eq_nil_of_hides hmore
      rfl
    | cons t tokens => rfl
  error hrun := by cases hrun

/-- The token behind the next one may be looked at where the next one is a minus. -/
theorem extends_lookahead {r : Option Token → Option Token → Reader α} (h : ∀ x y, Extends (r x y))
    (hsecond : ∀ x y, x ≠ some (.symbol .minus) → r x y = r x none) :
    Extends (do r (← peek) (← peekSecond)) where
  ok {finish records tokens k a rest k'} hrun := by
    change r (tokens.head?.map (·.token)) (tokens.tail.head?.map (·.token)) ⟨finish, records⟩
      ⟨tokens, k⟩ = _ at hrun
    obtain ⟨hrest, hr⟩ := (h _ _).ok hrun
    refine ⟨hrest, fun f finish' more hmore => ?_⟩
    change r ((extended f tokens more).head?.map (·.token))
      ((extended f tokens more).tail.head?.map (·.token)) ⟨finish', records⟩ _ = _
    have hsame := hr f finish' more hmore
    by_cases hnil : more = []
    · subst hnil
      rw [extended, List.append_nil] at hsame ⊢
      rwa [← List.map_tail, List.head?_map, List.head?_map, Option.map_map, Option.map_map]
    · have hhides := (hmore hnil).of_suffix hrest
      match tokens, hhides, hsame with
      | [], hhides, _ => exact absurd rfl hhides.1
      | t :: u :: tokens, _, hsame => exact hsame
      | [t], hhides, hsame =>
        have ht : some t.token ≠ some (.symbol .minus) := fun ht =>
          hhides.2 (congrArg (fun x => [x]) (Option.some.inj ht))
        change r (some t.token) _ _ _ = _
        rw [hsecond _ _ ht]
        exact hsame
  error {finish records tokens k e} hrun f := by
    change r (tokens.head?.map (·.token)) (tokens.tail.head?.map (·.token)) ⟨finish, records⟩
      ⟨tokens, k⟩ = _ at hrun
    have hsame := (h _ _).error hrun f
    change r ((extended f tokens []).head?.map (·.token))
      ((extended f tokens []).tail.head?.map (·.token)) _ _ = _
    rw [extended, List.append_nil] at hsame ⊢
    rwa [← List.map_tail, List.head?_map, List.head?_map, Option.map_map, Option.map_map]

/-- Of the context a reader may look at what it says about records. -/
theorem extends_records {r : Bool → Reader α} (h : ∀ records, Extends (r records)) :
    Extends (do r (← read).records) where
  ok {_ records _ _ _ _ _} hrun := (h records).ok hrun
  error {_ records _ _ _} hrun := (h records).error hrun

theorem extends_eat (s : Symbol) : Extends (eat s) :=
  extends_peek.bind fun _ =>
    extends_ite (extends_skip.bind fun _ => extends_pure _) (extends_pure _)

theorem extends_eatWord (w : String) : Extends (eatWord w) :=
  extends_peek.bind fun _ =>
    extends_ite (extends_skip.bind fun _ => extends_pure _) (extends_pure _)

theorem extends_expect (s : Symbol) : Extends (expect s) :=
  (extends_eat s).bind fun _ => extends_ite (extends_pure _) (extends_expected _)

theorem extends_identifier (role : String) : Extends (identifier role) := by
  refine extends_peek.bind fun next => ?_
  split
  · exact extends_ite (extends_expected _) (extends_skip.bind fun _ => extends_pure _)
  · exact extends_expected _

theorem Extends.withRecords {r : Reader α} (h : Extends r) (allowed : Bool) :
    Extends (withRecords allowed r) where
  ok hrun := h.ok hrun
  error hrun := h.error hrun

theorem extends_descend : Extends descend where
  ok {finish records tokens k u rest k'} hrun := by
    cases k with
    | zero => cases hrun
    | succ k =>
      cases hrun
      exact ⟨List.suffix_refl _, fun _ _ _ _ => rfl⟩
  error {finish records tokens k e} hrun f := by
    cases k with
    | zero => exact (extends_fail (α := Unit) .nestedTooDeep).error (k := 0) hrun f
    | succ k => cases hrun

theorem extends_levels (levels : Nat) :
    Extends (modify fun s => { s with levels } : Reader Unit) where
  ok hrun := by
    cases hrun
    exact ⟨List.suffix_refl _, fun _ _ _ _ => rfl⟩
  error hrun := by cases hrun

theorem Extends.nested {r : Reader α} (h : Extends r) : Extends (nested r) := by
  have hrest : ∀ k, Extends (do
      descend
      let result ← r
      modify fun s => { s with levels := k }
      return result) := fun k =>
    extends_descend.bind fun _ => h.bind fun a => (extends_levels k).bind fun _ => extends_pure a
  exact ⟨fun {_ _ _ k _ _ _} => (hrest k).ok, fun {_ _ _ k _} => (hrest k).error⟩

theorem Extends.itemsBefore {item : Reader α} (h : Extends item) (close : Symbol) (rounds : Nat) :
    Extends (itemsBefore close item rounds) := by
  induction rounds with
  | zero => exact extends_pure []
  | succ rounds ih =>
    refine extends_peek.bind fun _ => extends_ite (extends_pure []) ?_
    refine h.bind fun first => (extends_eat .comma).bind fun _ => extends_ite ?_ (extends_pure _)
    exact ih.bind fun rest => extends_pure _

theorem run_eat (s : Symbol) (context : ReaderContext) (tokens : List PlacedToken) (k : Nat) :
    eat s context ⟨tokens, k⟩ =
      .ok (if tokens.head?.map (·.token) = some (.symbol s) then (true, ⟨tokens.tail, k⟩)
        else (false, ⟨tokens, k⟩)) := by
  change (if tokens.head?.map (·.token) = some (.symbol s) then _ else _ : Reader Bool) _ _ = _
  split <;> rfl

/-- Every round takes a comma, so that with more rounds than tokens there are always enough. -/
theorem Extends.itemsBefore_congr {item : Reader α} (h : Extends item) {close : Symbol}
    {context : ReaderContext} {rounds rounds' k : Nat} {tokens : List PlacedToken}
    (hrounds : tokens.length < rounds) (hrounds' : tokens.length < rounds') :
    Reader.itemsBefore close item rounds context ⟨tokens, k⟩ =
      Reader.itemsBefore close item rounds' context ⟨tokens, k⟩ := by
  induction rounds generalizing rounds' k tokens with
  | zero => exact absurd hrounds (Nat.not_lt_zero _)
  | succ rounds ih =>
    obtain ⟨rounds', rfl⟩ : ∃ n, rounds' = n + 1 := ⟨rounds' - 1, by omega⟩
    change (peek >>= _ : Reader (List α)) _ _ = (peek >>= _ : Reader (List α)) _ _
    apply bind_congr_run
    intro next state hpeek
    cases hpeek
    by_cases hclose : tokens.head?.map (·.token) = some (.symbol close)
    · rw [if_pos hclose, if_pos hclose]
    · rw [if_neg hclose, if_neg hclose]
      apply bind_congr_run
      rintro first ⟨middle, k⟩ hitem
      have hle := (h.ok hitem).1.length_le
      apply bind_congr_run
      intro comma state hcomma
      rw [run_eat] at hcomma
      split at hcomma
      · rename_i hhead
        cases hcomma
        have hlt : middle.tail.length < middle.length := by
          cases middle with
          | nil => cases hhead
          | cons t middle => exact Nat.lt_succ_self _
        have hrest : Reader.itemsBefore close item rounds context ⟨middle.tail, k⟩ =
            Reader.itemsBefore close item rounds' context ⟨middle.tail, k⟩ :=
          ih (by omega) (by omega)
        rw [if_pos rfl, if_pos rfl]
        change (Reader.itemsBefore close item rounds context ⟨middle.tail, k⟩ >>= _) = _
        rw [hrest]
        rfl
      · cases hcomma
        rfl

end Extends

section Settled

theorem settled_pure (a : α) : Settled (pure a) where
  toExtends := extends_pure a
  stays hrun := by
    cases hrun
    rfl
  any hrun _ _ _ := by
    cases hrun
    rfl

theorem settled_fail (cause : ParseCause) : Settled (fail cause : Reader α) where
  toExtends := extends_fail cause
  stays hrun := by cases hrun
  any hrun := by cases hrun

/-- A reader may fail for what has been read before. -/
theorem settled_unless {c : Prop} [Decidable c] {cause : ParseCause} {rest : PUnit → Reader α}
    (h : Settled (rest ⟨⟩)) : Settled (if c then fail cause >>= rest else rest ⟨⟩) := by
  by_cases hc : c
  · rw [if_pos hc]
    exact settled_fail cause
  · rwa [if_neg hc]

end Settled

section Closes

theorem Closes.length_lt {r : Reader α} (h : Closes r) {context : ReaderContext}
    {tokens rest : List PlacedToken} {k k' : Nat} {a : α}
    (hrun : r context ⟨tokens, k⟩ = .ok (a, ⟨rest, k'⟩)) : rest.length < tokens.length := by
  obtain ⟨front, t, rfl, -⟩ := h.ends hrun
  simp only [List.length_append, List.length_cons]
  omega

theorem closes_fail (cause : ParseCause) : Closes (fail cause : Reader α) where
  toExtends := extends_fail cause
  ends hrun := by cases hrun
  any hrun := by cases hrun

theorem closes_ite {c : Prop} [Decidable c] {r r' : Reader α} (h : Closes r) (h' : Closes r') :
    Closes (if c then r else r') := by
  by_cases hc : c
  · rwa [if_pos hc]
  · rwa [if_neg hc]

/-- Whatever comes before a closing reader has the token to look at with which this one ends. -/
theorem Extends.closes {r : Reader α} {g : α → Reader β} (hr : Extends r) (hg : ∀ a, Closes (g a)) :
    Closes (r >>= g) where
  toExtends := hr.bind fun a => (hg a).toExtends
  ends {context tokens k b rest k'} hrun := by
    obtain ⟨⟨a, middle, left⟩, hfirst, hsecond⟩ := of_bind_eq_ok hrun
    obtain ⟨before, rfl⟩ := (hr.ok hfirst).1
    obtain ⟨front, t, rfl, ht⟩ := (hg a).ends hsecond
    exact ⟨before ++ front, t, (List.append_assoc _ _ _).symm, ht⟩
  any {finish records tokens k b rest k'} hrun f finish' more := by
    obtain ⟨⟨a, middle, left⟩, hfirst, hsecond⟩ := of_bind_eq_ok hrun
    obtain ⟨front, t, rfl, ht⟩ := (hg a).ends hsecond
    change (r _ _ >>= fun p => g p.1 _ p.2) = _
    rw [(hr.ok hfirst).2 f finish' more fun _ => ht.hides _ _]
    exact (hg a).any hsecond f finish' more

theorem Closes.bind {r : Reader α} {g : α → Reader β} (hr : Closes r) (hg : ∀ a, Settled (g a)) :
    Closes (r >>= g) where
  toExtends := hr.toExtends.bind fun a => (hg a).toExtends
  ends {context tokens k b rest k'} hrun := by
    obtain ⟨⟨a, middle, left⟩, hfirst, hsecond⟩ := of_bind_eq_ok hrun
    obtain rfl := (hg a).stays hsecond
    exact hr.ends hfirst
  any {finish records tokens k b rest k'} hrun f finish' more := by
    obtain ⟨⟨a, middle, left⟩, hfirst, hsecond⟩ := of_bind_eq_ok hrun
    change (r _ _ >>= fun p => g p.1 _ p.2) = _
    rw [hr.any hfirst f finish' more]
    exact (hg a).any hsecond f finish' more

theorem of_eat {s : Symbol} {context : ReaderContext} {tokens rest : List PlacedToken} {k k' : Nat}
    (hrun : eat s context ⟨tokens, k⟩ = .ok (true, ⟨rest, k'⟩)) :
    ∃ t, tokens = t :: rest ∧ t.token = .symbol s ∧ k' = k := by
  rw [run_eat] at hrun
  split at hrun
  · rename_i hhead
    cases tokens with
    | nil => cases hhead
    | cons t tokens =>
      cases hrun
      exact ⟨t, rfl, Option.some.inj hhead, rfl⟩
  · cases hrun

/-- A closing symbol may decide that nothing else comes. -/
theorem closes_eat {s : Symbol} (hs : s ∈ closing) {r r' : Reader α} (h : Settled r)
    (h' : Closes r') : Closes (do if ← eat s then r else r') where
  toExtends := (extends_eat s).bind fun _ => extends_ite h.toExtends h'.toExtends
  ends {context tokens k a rest k'} hrun := by
    obtain ⟨⟨found, middle, left⟩, hfirst, hsecond⟩ := of_bind_eq_ok hrun
    cases found with
    | true =>
      obtain ⟨t, rfl, ht, rfl⟩ := of_eat hfirst
      obtain rfl := h.stays hsecond
      exact ⟨[], t, rfl, s, hs, ht⟩
    | false =>
      obtain ⟨before, rfl⟩ := ((extends_eat s).ok hfirst).1
      obtain ⟨front, t, rfl, ht⟩ := h'.ends hsecond
      exact ⟨before ++ front, t, (List.append_assoc _ _ _).symm, ht⟩
  any {finish records tokens k a rest k'} hrun f finish' more := by
    obtain ⟨⟨found, middle, left⟩, hfirst, hsecond⟩ := of_bind_eq_ok hrun
    change (eat s _ _ >>= fun p => (if p.1 then r else r') _ p.2) = _
    cases found with
    | true =>
      obtain ⟨t, rfl, ht, rfl⟩ := of_eat hfirst
      have hhead : (extended f (t :: middle) more).head?.map (·.token) = some (.symbol s) :=
        congrArg some ht
      rw [run_eat, if_pos hhead]
      exact h.any hsecond f finish' more
    | false =>
      obtain ⟨front, t, rfl, ht⟩ := h'.ends hsecond
      rw [((extends_eat s).ok hfirst).2 f finish' more fun _ => ht.hides _ _]
      exact h'.any hsecond f finish' more

theorem closes_expected (what : String) : Closes (expected what : Reader α) :=
  extends_peek.closes fun _ => closes_fail _

theorem closes_expect {s : Symbol} (hs : s ∈ closing) : Closes (expect s) :=
  closes_eat hs (settled_pure ()) (closes_expected _)

/-- The items in as many rounds, and the closing symbol. -/
def itemsThrough (close : Symbol) (item : Reader α) (rounds : Nat) : Reader (List α) := do
  let items ← itemsBefore close item rounds
  expect close
  return items

theorem Extends.run_delimited {item : Reader α} (h : Extends item) (close : Symbol)
    {context : ReaderContext} {tokens : List PlacedToken} {k rounds : Nat}
    (hrounds : tokens.length ≤ rounds) : Reader.delimited close item context ⟨tokens, k⟩ =
      itemsThrough close item (rounds + 1) context ⟨tokens, k⟩ := by
  change (Reader.itemsBefore close item (tokens.length + 1) context ⟨tokens, k⟩ >>= _) =
    (Reader.itemsBefore close item (rounds + 1) context ⟨tokens, k⟩ >>= _)
  rw [h.itemsBefore_congr (Nat.lt_succ_self _) (Nat.lt_succ_of_le hrounds)]

/-- With as many rounds as there are tokens with more behind, there are enough without those. -/
theorem Extends.delimited {item : Reader α} (h : Extends item) {close : Symbol}
    (hclose : close ∈ closing) : Closes (Reader.delimited close item) := by
  have hthrough : ∀ rounds, Closes (itemsThrough close item rounds) := fun rounds =>
    (h.itemsBefore close rounds).closes fun items => (closes_expect hclose).bind fun _ =>
      settled_pure items
  refine ⟨⟨⟨fun {_ _ tokens _ _ _ _} hrun => ?_, fun {_ _ tokens _ _} hrun f => ?_⟩,
    fun {_ _ tokens _ _ _ _} hrun f finish' more => ?_⟩, fun {_ tokens _ _ _ _} hrun => ?_⟩
  · refine ⟨?_, fun f finish' more hmore => ?_⟩
    · rw [h.run_delimited close (Nat.le_refl _)] at hrun
      exact ((hthrough _).ok hrun).1
    · rw [h.run_delimited close (length_le_extended f tokens more)] at hrun
      exact ((hthrough _).ok hrun).2 f finish' more hmore
  · rw [h.run_delimited close (length_le_extended f tokens [])] at hrun
    exact (hthrough _).error hrun f
  · rw [h.run_delimited close (length_le_extended f tokens more)] at hrun
    exact (hthrough _).any hrun f finish' more
  · rw [h.run_delimited close (Nat.le_refl _)] at hrun
    exact (hthrough _).ends hrun

end Closes

section Keeps

theorem keeps_pure (a : α) : Keeps (pure a) := by
  intro _ _ _ _ hrun
  cases hrun
  rfl

theorem keeps_fail (cause : ParseCause) : Keeps (fail cause : Reader α) := by
  intro _ _ _ _ hrun
  cases hrun

theorem Keeps.bind {r : Reader α} {g : α → Reader β} (hr : Keeps r) (hg : ∀ a, Keeps (g a)) :
    Keeps (r >>= g) := by
  intro context state b state' hrun
  obtain ⟨⟨a, middle⟩, hfirst, hsecond⟩ := of_bind_eq_ok hrun
  exact (hg a context middle b state' hsecond).trans (hr context state a middle hfirst)

theorem Keeps.map {r : Reader α} (h : Keeps r) (g : α → β) : Keeps (g <$> r) :=
  h.bind fun a => keeps_pure (g a)

theorem keeps_ite {c : Prop} [Decidable c] {r r' : Reader α} (h : Keeps r) (h' : Keeps r') :
    Keeps (if c then r else r') := by
  by_cases hc : c
  · rwa [if_pos hc]
  · rwa [if_neg hc]

theorem keeps_peek : Keeps peek := by
  intro _ _ _ _ hrun
  cases hrun
  rfl

theorem keeps_expected (what : String) : Keeps (expected what : Reader α) :=
  keeps_peek.bind fun _ => keeps_fail _

theorem keeps_skip : Keeps skip := by
  intro _ _ _ _ hrun
  cases hrun
  rfl

theorem keeps_eat (s : Symbol) : Keeps (eat s) :=
  keeps_peek.bind fun _ => keeps_ite (keeps_skip.bind fun _ => keeps_pure _) (keeps_pure _)

theorem keeps_eatWord (w : String) : Keeps (eatWord w) :=
  keeps_peek.bind fun _ => keeps_ite (keeps_skip.bind fun _ => keeps_pure _) (keeps_pure _)

theorem keeps_expect (s : Symbol) : Keeps (expect s) :=
  (keeps_eat s).bind fun _ => keeps_ite (keeps_pure _) (keeps_expected _)

theorem keeps_identifier (role : String) : Keeps (identifier role) := by
  refine keeps_peek.bind fun next => ?_
  split
  · exact keeps_ite (keeps_expected _) (keeps_skip.bind fun _ => keeps_pure _)
  · exact keeps_expected _

/-- Whatever is used one level further in is given back. -/
theorem keeps_nested (r : Reader α) : Keeps (nested r) := by
  intro context state a state' hrun
  obtain ⟨⟨_, inside⟩, _, hrest⟩ := of_bind_eq_ok (x := descend context state) hrun
  obtain ⟨⟨result, left⟩, _, hlast⟩ := of_bind_eq_ok (x := r context inside) hrest
  cases hlast
  rfl

theorem Keeps.itemsBefore {item : Reader α} (h : Keeps item) (close : Symbol) (rounds : Nat) :
    Keeps (itemsBefore close item rounds) := by
  induction rounds with
  | zero => exact keeps_pure []
  | succ rounds ih =>
    refine keeps_peek.bind fun _ => keeps_ite (keeps_pure []) ?_
    refine h.bind fun first => (keeps_eat .comma).bind fun _ => keeps_ite ?_ (keeps_pure _)
    exact ih.bind fun rest => keeps_pure _

theorem Keeps.delimited {item : Reader α} (h : Keeps item) (close : Symbol) :
    Keeps (delimited close item) := fun context state =>
  ((h.itemsBefore close (state.tokens.length + 1)).bind fun items =>
    (keeps_expect close).bind fun _ => keeps_pure items) context state

end Keeps

end Reader
end TypedFlow
