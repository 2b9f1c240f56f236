/-!
# Failure over a state

How a computation that may fail and that changes a state runs part by part: a failing part ends the
whole, and what it has done to the state stays done.
-/
namespace TypedFlow

section
variable {ε σ α β : Type} {x : ExceptT ε (StateM σ) α} {s : σ}

theorem run_bind_ok {f : α → ExceptT ε (StateM σ) β} {a : α} (h : (x.run.run s).1 = .ok a) :
    (x >>= f).run.run s = (f a).run.run (x.run.run s).2 := by
  rw [ExceptT.run_bind, StateT.run_bind]
  cases hrun : x.run.run s with
  | mk result s' =>
    rw [hrun] at h
    cases h
    rfl

theorem run_bind_error {f : α → ExceptT ε (StateM σ) β} {e : ε} (h : (x.run.run s).1 = .error e) :
    (x >>= f).run.run s = (.error e, (x.run.run s).2) := by
  rw [ExceptT.run_bind, StateT.run_bind]
  cases hrun : x.run.run s with
  | mk result s' =>
    rw [hrun] at h
    cases h
    rfl

theorem run_tryCatch_ok {handler : ε → ExceptT ε (StateM σ) α} {a : α}
    (h : (x.run.run s).1 = .ok a) : (tryCatch x handler).run.run s = x.run.run s := by
  rw [ExceptT.run_tryCatch, StateT.run_bind]
  cases hrun : x.run.run s with
  | mk result s' =>
    rw [hrun] at h
    cases h
    rfl

theorem run_tryCatch_error {handler : ε → ExceptT ε (StateM σ) α} {e : ε}
    (h : (x.run.run s).1 = .error e) :
    (tryCatch x handler).run.run s = (handler e).run.run (x.run.run s).2 := by
  rw [ExceptT.run_tryCatch, StateT.run_bind]
  cases hrun : x.run.run s with
  | mk result s' =>
    rw [hrun] at h
    cases h
    rfl

end

theorem mapM_eq_ok {α β ε : Type} {f : α → Except ε β} {value : α → β} {items : List α}
    (h : ∀ a ∈ items, f a = .ok (value a)) : items.mapM f = .ok (items.map value) := by
  induction items with
  | nil => rfl
  | cons a items ih =>
    rw [List.forall_mem_cons] at h
    rw [List.mapM_cons, h.1, ih h.2]
    rfl

theorem of_bind_eq_ok {α β ε : Type} {x : Except ε α} {f : α → Except ε β} {b : β}
    (h : x >>= f = .ok b) : ∃ a, x = .ok a ∧ f a = .ok b := by
  cases x with
  | error e => cases h
  | ok a => exact ⟨a, rfl, h⟩

theorem of_bind_eq_error {α β ε : Type} {x : Except ε α} {f : α → Except ε β} {e : ε}
    (h : x >>= f = .error e) : x = .error e ∨ ∃ a, x = .ok a ∧ f a = .error e := by
  cases x with
  | error e' =>
    cases h
    exact .inl rfl
  | ok a => exact .inr ⟨a, rfl, h⟩

theorem eq_ok_of_isOk {α ε : Type} {x : Except ε α} (h : x.isOk = true) (other : α) :
    x = .ok (x.toOption.getD other) := by
  cases x with
  | error e => cases h
  | ok a => rfl

/-- Every one of the values comes from an item. -/
theorem exists_of_mem_mapM {α β ε : Type} {f : α → Except ε β} {items : List α} {values : List β}
    (h : items.mapM f = .ok values) : ∀ b ∈ values, ∃ a ∈ items, f a = .ok b := by
  induction items generalizing values with
  | nil =>
    cases h
    exact fun _ h => absurd h List.not_mem_nil
  | cons a items ih =>
    rw [List.mapM_cons] at h
    obtain ⟨b, ha, h⟩ := of_bind_eq_ok h
    obtain ⟨bs, hrest, h⟩ := of_bind_eq_ok h
    cases h
    intro c hc
    rcases List.mem_cons.1 hc with rfl | hc
    · exact ⟨a, List.mem_cons_self, ha⟩
    · obtain ⟨other, hmem, hother⟩ := ih hrest c hc
      exact ⟨other, List.mem_cons_of_mem _ hmem, hother⟩

/-- A loop of checks succeeds only if every check does. -/
theorem ok_of_forIn {α ε : Type} {check : α → Except ε Unit} {items : List α}
    (h : (forIn items PUnit.unit fun a _ => do
      check a
      return .yield PUnit.unit) = .ok PUnit.unit) : ∀ a ∈ items, check a = .ok () := by
  induction items with
  | nil => exact fun _ h => absurd h List.not_mem_nil
  | cons a items ih =>
    rw [List.forIn_cons] at h
    obtain ⟨_, hfirst, h⟩ := of_bind_eq_ok h
    obtain ⟨_, ha, hyield⟩ := of_bind_eq_ok hfirst
    cases hyield
    exact List.forall_mem_cons.2 ⟨ha, ih h⟩

theorem exists_of_mapM_eq_error {α β ε : Type} {f : α → Except ε β} {items : List α} {e : ε}
    (h : items.mapM f = .error e) : ∃ a ∈ items, f a = .error e := by
  induction items with
  | nil => cases h
  | cons a items ih =>
    rw [List.mapM_cons] at h
    rcases of_bind_eq_error h with ha | ⟨b, -, h⟩
    · exact ⟨a, List.mem_cons_self, ha⟩
    · rcases of_bind_eq_error h with hrest | ⟨bs, -, h⟩
      · obtain ⟨other, hmem, hother⟩ := ih hrest
        exact ⟨other, List.mem_cons_of_mem a hmem, hother⟩
      · cases h

theorem exists_of_foldlM_eq_error {α β ε : Type} {f : β → α → Except ε β} {items : List α} {b : β}
    {e : ε} (h : items.foldlM f b = .error e) : ∃ b', ∃ a ∈ items, f b' a = .error e := by
  induction items generalizing b with
  | nil => cases h
  | cons a items ih =>
    rw [List.foldlM_cons] at h
    rcases of_bind_eq_error h with ha | ⟨b', -, h⟩
    · exact ⟨b, a, List.mem_cons_self, ha⟩
    · obtain ⟨b'', other, hmem, hother⟩ := ih h
      exact ⟨b'', other, List.mem_cons_of_mem a hmem, hother⟩

/-- A loop of checks fails as one of them does. -/
theorem exists_of_forIn_eq_error {α ε : Type} {check : α → Except ε Unit} {items : List α} {e : ε}
    (h : (forIn items PUnit.unit fun a _ => do
      check a
      return .yield PUnit.unit) = .error e) : ∃ a ∈ items, check a = .error e := by
  induction items with
  | nil => cases h
  | cons a items ih =>
    rw [List.forIn_cons] at h
    rcases of_bind_eq_error h with hfirst | ⟨step, hfirst, h⟩
    · rcases of_bind_eq_error hfirst with ha | ⟨_, -, hyield⟩
      · exact ⟨a, List.mem_cons_self, ha⟩
      · cases hyield
    · obtain ⟨_, -, hyield⟩ := of_bind_eq_ok hfirst
      cases hyield
      obtain ⟨other, hmem, hother⟩ := ih h
      exact ⟨other, List.mem_cons_of_mem a hmem, hother⟩

end TypedFlow
