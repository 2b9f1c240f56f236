import TypedFlow.Proofs.Source.Reader

/-!
# What readers spend

A reader uses up levels, and what it gives may be bounded by those that it has used. The rules
follow the combinators; the bound on what is in hand grows with the levels that have been spent for
it.
-/
namespace TypedFlow.Reader
variable {α β : Type} {m c : Nat} {P : Nat → α → Prop} {Q : Nat → β → Prop}

/-- Started with at most `m` levels, the reader leaves no more than there were, and its result fits
`c` and the levels spent. -/
def Spends (m c : Nat) (P : Nat → α → Prop) (r : Reader α) : Prop :=
  ∀ context state a state', r context state = .ok (a, state') → state.levels ≤ m →
    state'.levels ≤ state.levels ∧ P (c + (state.levels - state'.levels)) a

theorem spends_pure {a : α} (h : P c a) : Spends m c P (pure a) := by
  intro _ state _ _ hrun _
  cases hrun
  exact ⟨Nat.le_refl _, by rwa [Nat.sub_self]⟩

theorem spends_any (a : α) : Spends m c (fun _ _ => True) (pure a) := spends_pure trivial

theorem Spends.bind {r : Reader α} {f : α → Reader β} (hr : Spends m c P r)
    (hf : ∀ n a, c ≤ n → P n a → Spends m n Q (f a)) : Spends m c Q (r >>= f) := by
  intro context state b state' hrun hm
  change (r context state >>= fun p => f p.1 context p.2) = .ok (b, state') at hrun
  cases h : r context state with
  | error e =>
    rw [h] at hrun
    cases hrun
  | ok p =>
    rw [h] at hrun
    obtain ⟨hle, ha⟩ := hr context state p.1 p.2 h hm
    obtain ⟨hle', hb⟩ := hf _ p.1 (by omega) ha context p.2 b state' hrun (by omega)
    refine ⟨by omega, ?_⟩
    rwa [show c + (state.levels - p.2.levels) + (p.2.levels - state'.levels) =
      c + (state.levels - state'.levels) by omega] at hb

theorem Spends.map {r : Reader α} {f : α → β} (hr : Spends m c P r)
    (hf : ∀ n a, P n a → Q n (f a)) : Spends m c Q (f <$> r) :=
  hr.bind fun n a _ ha => spends_pure (hf n a ha)

theorem Spends.map_any {r : Reader α} (hr : Spends m c (fun _ _ => True) r) (f : α → β) :
    Spends m c (fun _ _ => True) (f <$> r) :=
  hr.map fun _ _ h => h

theorem Spends.imp {r : Reader α} {P' : Nat → α → Prop} (hr : Spends m c P r)
    (h : ∀ n a, P n a → P' n a) : Spends m c P' r := by
  intro context state a state' hrun hm
  obtain ⟨hle, ha⟩ := hr context state a state' hrun hm
  exact ⟨hle, h _ a ha⟩

/-- With room for one more the result leaves room for one more. -/
theorem Spends.succ {r : Reader α} (hr : Spends m c P r) :
    Spends m (c + 1) (fun n a => ∃ k, n = k + 1 ∧ P k a) r := by
  intro context state a state' hrun hm
  obtain ⟨hle, ha⟩ := hr context state a state' hrun hm
  exact ⟨hle, _, Nat.add_right_comm _ _ _, ha⟩

theorem spends_fail (cause : ParseCause) : Spends m c P (fail cause : Reader α) := by
  intro _ _ _ _ hrun
  cases hrun

theorem spends_expected (what : String) : Spends m c P (expected what : Reader α) := by
  intro _ _ _ _ hrun
  cases hrun

theorem spends_peek : Spends m c (fun _ _ => True) peek := by
  intro _ _ _ _ hrun _
  cases hrun
  exact ⟨Nat.le_refl _, trivial⟩

theorem spends_peekSecond : Spends m c (fun _ _ => True) peekSecond := by
  intro _ _ _ _ hrun _
  cases hrun
  exact ⟨Nat.le_refl _, trivial⟩

theorem spends_skip : Spends m c (fun _ _ => True) skip := by
  intro _ _ _ _ hrun _
  cases hrun
  exact ⟨Nat.le_refl _, trivial⟩

theorem spends_get : Spends m c (fun _ _ => True) (get : Reader ReaderState) := by
  intro _ _ _ _ hrun _
  cases hrun
  exact ⟨Nat.le_refl _, trivial⟩

theorem spends_read : Spends m c (fun _ _ => True) (read : Reader ReaderContext) := by
  intro _ _ _ _ hrun _
  cases hrun
  exact ⟨Nat.le_refl _, trivial⟩

theorem spends_ite {p : Prop} [Decidable p] {r r' : Reader α} (h : Spends m c P r)
    (h' : Spends m c P r') : Spends m c P (if p then r else r') := by
  by_cases hp : p
  · rwa [if_pos hp]
  · rwa [if_neg hp]

theorem spends_unless {p : Prop} [Decidable p] {cause : ParseCause} {rest : PUnit → Reader α}
    (h : Spends m c P (rest ⟨⟩)) : Spends m c P (if p then fail cause >>= rest else rest ⟨⟩) :=
  spends_ite ((spends_fail (P := fun _ _ => False) cause).bind fun _ _ _ h => h.elim) h

theorem spends_eat (s : Symbol) : Spends m c (fun _ _ => True) (eat s) :=
  spends_peek.bind fun _ _ _ _ => spends_ite
    (spends_skip.bind fun _ _ _ _ => spends_any true) (spends_any false)

theorem spends_eatWord (w : String) : Spends m c (fun _ _ => True) (eatWord w) :=
  spends_peek.bind fun _ _ _ _ => spends_ite
    (spends_skip.bind fun _ _ _ _ => spends_any true) (spends_any false)

theorem spends_expect (s : Symbol) : Spends m c (fun _ _ => True) (expect s) :=
  (spends_eat s).bind fun _ _ _ _ => spends_ite (spends_any _) (spends_expected _)

theorem spends_expectEnd : Spends m c (fun _ _ => True) expectEnd :=
  spends_peek.bind fun _ _ _ _ => spends_ite (spends_any _) (spends_expected _)

theorem spends_identifier (role : String) : Spends m c (fun _ _ => True) (identifier role) := by
  refine spends_peek.bind fun _ next _ _ => ?_
  split
  · exact spends_ite (spends_expected _) (spends_skip.bind fun _ _ _ _ => spends_any _)
  · exact spends_expected _

theorem Spends.withRecords {r : Reader α} (h : Spends m c P r) (allowed : Bool) :
    Spends m c P (withRecords allowed r) :=
  fun _ state a state' hrun hm => h _ state a state' hrun hm

/-- A level that is spent makes room for one more. -/
theorem Spends.descend {f : Unit → Reader β} (h : Spends m (c + 1) Q (f ())) :
    Spends m c Q (descend >>= f) := by
  intro context state b state' hrun hm
  obtain ⟨tokens, levels⟩ := state
  cases levels with
  | zero => cases hrun
  | succ levels =>
    obtain ⟨hle, hb⟩ := h context ⟨tokens, levels⟩ b state' hrun (Nat.le_of_succ_le hm)
    dsimp only at hle hb ⊢
    refine ⟨by omega, ?_⟩
    rwa [show c + 1 + (levels - state'.levels) = c + (levels + 1 - state'.levels) by omega] at hb

theorem spends_nested_zero {r : Reader α} : Spends 0 c P (nested r) := by
  intro context state a state' hrun hm
  obtain ⟨tokens, levels⟩ := state
  obtain rfl := Nat.le_zero.1 hm
  cases hrun

/-- One level further in all levels may be spent; behind it there are as many as before. -/
theorem Spends.nested {r : Reader α} (hmono : ∀ n n' a, n ≤ n' → P n a → P n' a)
    (h : Spends m c P r) (d : Nat) : Spends (m + 1) d (fun _ a => P (c + m) a) (nested r) := by
  intro context state a state' hrun hm
  obtain ⟨tokens, levels⟩ := state
  cases levels with
  | zero => cases hrun
  | succ levels =>
    change (r context ⟨tokens, levels⟩ >>= fun p =>
      Except.ok (p.1, { p.2 with levels := levels + 1 })) = _ at hrun
    cases hr : r context ⟨tokens, levels⟩ with
    | error e =>
      rw [hr] at hrun
      cases hrun
    | ok p =>
      rw [hr] at hrun
      cases hrun
      obtain ⟨-, ha⟩ := h context ⟨tokens, levels⟩ p.1 p.2 hr (Nat.le_of_succ_le_succ hm)
      dsimp only at hm ha
      exact ⟨Nat.le_refl _, hmono _ _ _ (by omega) ha⟩

/-- All items fit what has been spent for all of them. -/
theorem Spends.itemsBefore {item : Reader α} (hmono : ∀ n n' a, n ≤ n' → P n a → P n' a)
    (h : ∀ n, c ≤ n → Spends m n P item) (close : Symbol) (rounds : Nat) :
    Spends m c (fun n items => ∀ a ∈ items, P n a) (itemsBefore close item rounds) := by
  induction rounds generalizing c with
  | zero => exact spends_pure fun _ ha => absurd ha List.not_mem_nil
  | succ rounds ih =>
    refine spends_peek.bind fun _ _ hn _ => spends_ite ?_ ?_
    · exact spends_pure fun _ ha => absurd ha List.not_mem_nil
    · refine (h _ hn).bind fun n first hn first_fits => (spends_eat .comma).bind fun n' _ hn' _ =>
        spends_ite ?_ ?_
      · refine (ih fun k hk => h k (by omega)).bind fun k rest hk hrest => spends_pure ?_
        exact List.forall_mem_cons.2 ⟨hmono _ _ _ (by omega) first_fits, hrest⟩
      · exact spends_pure fun a ha => List.mem_singleton.1 ha ▸ hmono _ _ _ hn' first_fits

theorem Spends.delimited {item : Reader α} (hmono : ∀ n n' a, n ≤ n' → P n a → P n' a)
    (h : ∀ n, c ≤ n → Spends m n P item) (close : Symbol) :
    Spends m c (fun n items => ∀ a ∈ items, P n a) (delimited close item) := by
  refine spends_get.bind fun n _ hn _ => ?_
  refine (Spends.itemsBefore hmono (fun k hk => h k (by omega)) close _).bind
    fun k items _ hitems => (spends_expect close).bind fun k' _ hk' _ => spends_pure ?_
  exact fun a ha => hmono _ _ _ hk' (hitems a ha)

theorem Spends.run {r : Reader α} {P : α → Prop} (h : Spends maxNesting c (fun _ => P) r)
    {source : String} {a : α} (hrun : r.run source = .ok a) : P a := by
  obtain ⟨list, state', -, hresult⟩ := exists_of_run hrun
  exact (h _ _ a state' hresult (Nat.le_refl _)).2

end TypedFlow.Reader
