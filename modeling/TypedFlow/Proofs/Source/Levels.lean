import TypedFlow.Source.Reader

/-!
# More levels

The limit on nesting can only turn an outcome into its own error: with more levels a reader gives
the same result and fails in the same way, unless it has found no level left. There is one rule for
each combinator.
-/
namespace TypedFlow.Reader
variable {α β : Type}

/-- What a reader gives or how it fails, and what the same one does with more levels. -/
inductive SameOutcome : Except ParseError (α × ReaderState) → Except ParseError (α × ReaderState) → Prop
  | tooDeep (position : Position) (other : Except ParseError (α × ReaderState)) :
      SameOutcome (.error ⟨position, .nestedTooDeep⟩) other
  | failed (e : ParseError) : SameOutcome (.error e) (.error e)
  | gives (a : α) (tokens : List PlacedToken) {k k' : Nat} : k ≤ k' →
      SameOutcome (.ok (a, ⟨tokens, k⟩)) (.ok (a, ⟨tokens, k'⟩))

/-- The second reader does with more levels what the first one does with fewer. -/
def Agrees (r r' : Reader α) : Prop := ∀ context tokens k k', k ≤ k' →
  SameOutcome (r context ⟨tokens, k⟩) (r' context ⟨tokens, k'⟩)

theorem agrees_pure (a : α) : Agrees (pure a) (pure a) := fun _ tokens _ _ hk => .gives a tokens hk

theorem Agrees.bind {r r' : Reader α} {f f' : α → Reader β} (h : Agrees r r')
    (hf : ∀ a, Agrees (f a) (f' a)) : Agrees (r >>= f) (r' >>= f') := by
  intro context tokens k k' hk
  change SameOutcome (r context ⟨tokens, k⟩ >>= fun p => f p.1 context p.2)
    (r' context ⟨tokens, k'⟩ >>= fun p => f' p.1 context p.2)
  have hsame := h context tokens k k' hk
  generalize r context ⟨tokens, k⟩ = outcome at hsame
  generalize r' context ⟨tokens, k'⟩ = outcome' at hsame
  cases hsame with
  | tooDeep position other => exact .tooDeep position _
  | failed e => exact .failed e
  | gives a tokens hk => exact hf a context tokens _ _ hk

theorem Agrees.map {r r' : Reader α} (h : Agrees r r') (f : α → β) : Agrees (f <$> r) (f <$> r') :=
  h.bind fun a => agrees_pure (f a)

theorem agrees_fail (cause : ParseCause) : Agrees (fail cause : Reader α) (fail cause) :=
  fun _ _ _ _ _ => .failed _

theorem agrees_tooDeep (r : Reader α) : Agrees (fail .nestedTooDeep) r :=
  fun _ _ _ _ _ => .tooDeep _ _

theorem agrees_expected (what : String) : Agrees (expected what : Reader α) (expected what) :=
  fun _ _ _ _ _ => .failed _

theorem agrees_peek : Agrees peek peek := fun _ tokens _ _ hk => .gives _ tokens hk

theorem agrees_peekSecond : Agrees peekSecond peekSecond := fun _ tokens _ _ hk => .gives _ tokens hk

theorem agrees_skip : Agrees skip skip := fun _ tokens _ _ hk => .gives () tokens.tail hk

theorem agrees_read : Agrees read read := fun context tokens _ _ hk => .gives context tokens hk

theorem agrees_ite {c : Prop} [Decidable c] {r r' s s' : Reader α} (h : Agrees r r')
    (h' : Agrees s s') : Agrees (if c then r else s) (if c then r' else s') := by
  by_cases hc : c
  · rw [if_pos hc, if_pos hc]
    exact h
  · rw [if_neg hc, if_neg hc]
    exact h'

theorem agrees_eat (s : Symbol) : Agrees (eat s) (eat s) :=
  agrees_peek.bind fun _ => agrees_ite (agrees_skip.bind fun _ => agrees_pure _) (agrees_pure _)

theorem agrees_eatWord (w : String) : Agrees (eatWord w) (eatWord w) :=
  agrees_peek.bind fun _ => agrees_ite (agrees_skip.bind fun _ => agrees_pure _) (agrees_pure _)

theorem agrees_expect (s : Symbol) : Agrees (expect s) (expect s) :=
  (agrees_eat s).bind fun _ => agrees_ite (agrees_pure _) (agrees_expected _)

theorem agrees_expectEnd : Agrees expectEnd expectEnd :=
  agrees_peek.bind fun _ => agrees_ite (agrees_pure _) (agrees_expected _)

theorem agrees_identifier (role : String) : Agrees (identifier role) (identifier role) := by
  refine agrees_peek.bind fun next => ?_
  split
  · exact agrees_ite (agrees_expected _) (agrees_skip.bind fun _ => agrees_pure _)
  · exact agrees_expected _

theorem Agrees.withRecords {r r' : Reader α} (h : Agrees r r') (allowed : Bool) :
    Agrees (withRecords allowed r) (withRecords allowed r') :=
  fun _ tokens k k' hk => h _ tokens k k' hk

theorem agrees_descend : Agrees descend descend := by
  intro context tokens k k' hk
  cases k with
  | zero => exact .tooDeep _ _
  | succ k =>
    obtain ⟨j, rfl⟩ := Nat.exists_eq_add_of_le hk
    rw [Nat.succ_add]
    exact .gives () tokens (Nat.le_add_right k j)

theorem Agrees.nested {r r' : Reader α} (h : Agrees r r') : Agrees (nested r) (nested r') := by
  have hrest : ∀ k k', k ≤ k' → Agrees (do
      let result ← r
      modify fun s => { s with levels := k }
      return result) (do
      let result ← r'
      modify fun s => { s with levels := k' }
      return result) := fun k k' hk =>
    h.bind fun a _ tokens _ _ _ => .gives a tokens hk
  intro context tokens k k' hk
  exact agrees_descend.bind (fun _ => hrest k k' hk) context tokens k k' hk

theorem Agrees.itemsBefore {item item' : Reader α} (h : Agrees item item') (close : Symbol)
    (rounds : Nat) : Agrees (itemsBefore close item rounds) (itemsBefore close item' rounds) := by
  induction rounds with
  | zero => exact agrees_pure []
  | succ rounds ih =>
    refine agrees_peek.bind fun _ => agrees_ite (agrees_pure []) ?_
    refine h.bind fun first => (agrees_eat .comma).bind fun _ => agrees_ite ?_ (agrees_pure _)
    exact ih.bind fun rest => agrees_pure _

theorem Agrees.delimited {item item' : Reader α} (h : Agrees item item') (close : Symbol) :
    Agrees (delimited close item) (delimited close item') := by
  intro context tokens k k' hk
  exact (h.itemsBefore close (tokens.length + 1)).bind
    (fun items => (agrees_expect close).bind fun _ => agrees_pure items) context tokens k k' hk

end TypedFlow.Reader
