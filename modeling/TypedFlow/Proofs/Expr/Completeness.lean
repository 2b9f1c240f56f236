import TypedFlow.Proofs.Expr.Phrases

/-!
# What is derived is read

Tokens that stand for an expression are read as this expression wherever enough levels are left. By
induction on the derivation: a phrase is read at its place if the phrases in it are read at theirs.
-/
namespace TypedFlow
open Reader

section Heads

theorem begins_of_not_keyword {n : String} (h : n ∉ keywords) : (Token.word n).Begins := by
  rintro rfl
  exact h (by decide)

theorem Derives.exists_head {records : Bool} {place : Nat} {tokens : List Token} {e : Expr}
    (h : Derives records place tokens e) : ∃ t, tokens.head? = some t ∧ t.Begins := by
  induction h with
  | tighter _ _ ih => exact ih
  | binary _ _ _ ih _ => exact Expr.exists_head_append ih _
  | negate _ _ _ => exact ⟨_, rfl, .inl rfl⟩
  | negative _ => exact ⟨_, rfl, .inl rfl⟩
  | field _ _ ih => exact Expr.exists_head_append ih _
  | number _ => exact ⟨_, rfl, trivial⟩
  | range _ _ => exact ⟨_, rfl, trivial⟩
  | string s => exact ⟨_, rfl, trivial⟩
  | parenthesized _ _ => exact ⟨_, rfl, .inr rfl⟩
  | name hn => exact ⟨_, rfl, begins_of_not_keyword hn⟩
  | path hn _ => exact ⟨_, rfl, begins_of_not_keyword hn⟩
  | call hcallee _ _ _ =>
    obtain ⟨n, hhead, hn⟩ := hcallee.exists_head
    exact Expr.exists_head_append ⟨_, hhead, begins_of_not_keyword hn⟩ _
  | record howner _ _ _ _ => exact ⟨_, rfl, begins_of_not_keyword howner⟩
  | select _ _ _ _ _ _ _ _ _ => exact ⟨_, rfl, by simp [Token.Begins]⟩

theorem Derives.ne_nil {records : Bool} {place : Nat} {tokens : List Token} {e : Expr}
    (h : Derives records place tokens e) : tokens ≠ [] := by
  obtain ⟨t, ht, -⟩ := h.exists_head
  rintro rfl
  cases ht

end Heads

theorem Derives.place_le {records : Bool} {place : Nat} {tokens : List Token} {e : Expr}
    (h : Derives records place tokens e) : place ≤ 6 := by
  induction h with
  | tighter _ _ ih => exact Nat.le_of_succ_le ih
  | @binary _ op => cases op <;> decide
  | _ => decide

namespace Expr
variable {records : Bool} {place : Nat} {tokens : List Token} {e : Expr}

/-- With enough levels the tokens are read at their place, and as many are left as one likes. -/
def Readable (records : Bool) (place : Nat) (tokens : List Token) (e : Expr) : Prop :=
  ∀ left, ∃ need, ∀ levels (context : ReaderContext) k, context.records = records → need ≤ k →
    k ≤ levels → ∃ k', left ≤ k' ∧ ReadAt levels context k k' tokens e place

/-- With that many levels the tokens are read as an expression further in. -/
def ReadsWith (records : Bool) (k : Nat) (tokens : List Token) (e : Expr) : Prop :=
  ∀ levels (context : ReaderContext), context.records = records → k ≤ levels →
    ReadsInner levels context k tokens e

theorem Readable.inner (h : Readable records 1 tokens e) :
    ∃ need, ∀ k, need ≤ k → ReadsWith records k tokens e := by
  obtain ⟨need, hneed⟩ := h 0
  refine ⟨need + 1, fun k hk levels context hrecords hle following hfollows => ?_⟩
  obtain ⟨j, rfl⟩ : ∃ j, k = j + 1 := ⟨k - 1, by omega⟩
  obtain ⟨l, rfl⟩ : ∃ l, levels = l + 1 := ⟨levels - 1, by omega⟩
  obtain ⟨k', -, hread⟩ := hneed l context j hrecords (by omega) (by omega)
  exact hread.inner (by omega) hfollows

/-- What is enough for each of some items one by one has a bound for all. -/
theorem exists_need {ι : Type} {P : ι → Nat → Prop} {items : List ι}
    (h : ∀ i ∈ items, ∃ need, ∀ k, need ≤ k → P i k) :
    ∃ need, ∀ i ∈ items, ∀ k, need ≤ k → P i k := by
  induction items with
  | nil => exact ⟨0, fun _ hi => absurd hi List.not_mem_nil⟩
  | cons i items ih =>
    rw [List.forall_mem_cons] at h
    obtain ⟨need, hneed⟩ := h.1
    obtain ⟨others, hothers⟩ := ih h.2
    refine ⟨max need others, List.forall_mem_cons.2 ⟨fun k hk => hneed k (by omega), ?_⟩⟩
    exact fun j hj k hk => hothers j hj k (by omega)

theorem readable_primary (need : Nat) (hminus : tokens.head? ≠ some (.symbol .minus))
    (hne : tokens ≠ [])
    (h : ∀ levels (context : ReaderContext) k following, context.records = records →
      need ≤ k → k ≤ levels → Follows records 7 tokens following →
        Gives (primary (expressionAt levels)) context k (tokens ++ following) e k following) :
    Readable records 6 tokens e := by
  obtain ⟨t, rest, rfl⟩ := List.exists_cons_of_ne_nil hne
  have hhead : t ≠ .symbol .minus := fun heq => hminus (congrArg some heq)
  intro left
  refine ⟨max need left, fun levels context k hrecords hk hle => ⟨k, by omega, ?_⟩⟩
  subst hrecords
  exact readAt_primary hle rfl hhead fun following hfollows =>
    h levels context k following rfl (by omega) hle hfollows

theorem forall₂_map_givesItem {ι α : Type} {item : Reader α} {context : ReaderContext} {k : Nat}
    {close : Symbol} {list : ι → List Token} {value : ι → α} {items : List ι}
    (h : ∀ i ∈ items, GivesItem item context k close (list i) (value i)) :
    List.Forall₂ (GivesItem item context k close) (items.map list) (items.map value) := by
  rw [List.forall₂_map_left_iff, List.forall₂_map_right_iff, List.forall₂_same]
  exact h

theorem readable_call {callee list : List Token} {function : String} {args : List Phrase}
    (hcallee : Callee callee function) (hlist : Listed (args.map Phrase.tokens) list)
    (hheads : ∀ p ∈ args, ∃ t, p.tokens.head? = some t ∧ t.Begins)
    (h : ∀ p ∈ args, Readable true 1 p.tokens p.value) :
    Readable records 6 (callee ++ .symbol .openParen :: (list ++ [.symbol .closeParen]))
      (.call function (args.map Phrase.value)) := by
  obtain ⟨need, hneed⟩ := exists_need fun p hp => (h p hp).inner
  obtain ⟨n, hn, -⟩ := hcallee.exists_head
  refine readable_primary need (by simp [List.head?_append, hn]) (by simp) ?_
  intro levels context k following _ hk hle _
  have hitems := forall₂_map_givesItem fun p hp => givesItem_argument
    (hneed p hp k hk levels { context with records := true } rfl hle) (hheads p hp)
  rw [List.append_assoc, List.cons_append, List.append_assoc]
  exact gives_primary_call hlist hcallee hitems following

theorem readable_record {list : List Token} {owner : String} {fields : List (String × Phrase)}
    (howner : owner ∉ keywords) (hlabels : ∀ f ∈ fields, f.1 ∉ keywords)
    (hlist : Listed (fields.map Phrase.fieldTokens) list)
    (h : ∀ f ∈ fields, Readable true 1 f.2.tokens f.2.value) :
    Readable true 6 (.word owner :: .symbol .openBrace :: (list ++ [.symbol .closeBrace]))
      (.record owner (fields.map Phrase.fieldValue)) := by
  obtain ⟨need, hneed⟩ := exists_need fun f hf => (h f hf).inner
  refine readable_primary need (by simp) (by simp) ?_
  intro levels context k following hrecords hk hle _
  have hitems := forall₂_map_givesItem fun f hf => givesItem_field (hlabels f hf)
    (hneed f hf k hk levels { context with records := true } rfl hle)
  rw [List.cons_append, List.cons_append, List.append_assoc]
  exact gives_primary_record hlist hrecords howner hitems following

theorem readable_select {scrutinee list : List Token} {arms : List (MatchArm Phrase)}
    (hscrutinee : Readable false 1 scrutinee e) (hne : arms ≠ [])
    (hbindings : ∀ a ∈ arms, ∀ n ∈ a.binding, n ∉ keywords)
    (hlist : Listed (arms.map Phrase.armTokens) list)
    (hheads : ∀ a ∈ arms, ∀ p ∈ a.pattern, ∃ t, p.tokens.head? = some t ∧ t.Begins)
    (hpatterns : ∀ a ∈ arms, ∀ p ∈ a.pattern, Readable true 1 p.tokens p.value)
    (hbodies : ∀ a ∈ arms, Readable true 1 a.body.tokens a.body.value) :
    Readable records 6
      (.word "match" :: (scrutinee ++ .symbol .openBrace :: (list ++ [.symbol .closeBrace])))
      (.select e (arms.map Phrase.armValue)) := by
  obtain ⟨need, hneed⟩ := hscrutinee.inner
  obtain ⟨inBodies, hinBodies⟩ := exists_need fun a ha => (hbodies a ha).inner
  obtain ⟨inPatterns, hinPatterns⟩ : ∃ need, ∀ a ∈ arms, ∀ k, need ≤ k → ∀ p ∈ a.pattern,
      ReadsWith true k p.tokens p.value := exists_need fun a ha => by
    cases hpattern : a.pattern with
    | none => exact ⟨0, fun _ _ _ hp => by cases hp⟩
    | some p =>
      obtain ⟨n, hn⟩ := (hpatterns a ha p hpattern).inner
      exact ⟨n, fun k hk _ hp => by cases hp; exact hn k hk⟩
  refine readable_primary (max need (max inBodies inPatterns)) (by simp) (by simp) ?_
  intro levels context k following _ hk hle _
  have hitem : ∀ a ∈ arms, GivesItem (arm (expressionAt levels)) { context with records := true } k
      .closeBrace (Phrase.armTokens a) (Phrase.armValue a) := by
    intro a ha
    have hbody := hinBodies a ha k (by omega) levels { context with records := true } rfl hle
    have hpattern := hinPatterns a ha k (by omega)
    have hhead := hheads a ha
    have hbinding := hbindings a ha
    obtain ⟨pattern, binding, body⟩ := a
    cases pattern with
    | none => exact givesItem_wildcard hbinding hbody
    | some p =>
      exact givesItem_arm hbinding hbody (hpattern p rfl levels _ rfl hle) (hhead p rfl)
  rw [List.cons_append, List.append_assoc, List.cons_append, List.append_assoc]
  exact gives_primary_select hlist
    (hneed k (by omega) levels { context with records := false } rfl hle) (by simpa using hne)
    (forall₂_map_givesItem hitem) following

/-- Every derivation is read, with enough levels. -/
theorem readable_of_derives (h : Derives records place tokens e) :
    Readable records place tokens e := by
  induction h with
  | tighter h1 hinner ih =>
    have hplace := hinner.place_le
    intro left
    obtain ⟨need, hneed⟩ := ih left
    refine ⟨need, fun levels context k hrecords hk hle => ?_⟩
    obtain ⟨k', hleft, hread⟩ := hneed levels context k hrecords hk hle
    exact ⟨k', hleft, hread.next hle h1 (by omega)⟩
  | binary _ hright hsign ihleft ihright =>
    intro left
    -- The left operand has to leave a level for the operator and those for the right operand.
    obtain ⟨needRight, hneedRight⟩ := ihright left
    obtain ⟨needLeft, hneedLeft⟩ := ihleft (needRight + 1)
    refine ⟨needLeft, fun levels context k hrecords hk hle => ?_⟩
    obtain ⟨j, hj, hreadLeft⟩ := hneedLeft levels context k hrecords hk hle
    obtain ⟨j, rfl⟩ : ∃ i, j = i + 1 := ⟨j - 1, by omega⟩
    have hfewer := hreadLeft.1
    obtain ⟨k', hleft, hreadRight⟩ := hneedRight levels context j hrecords (by omega) (by omega)
    exact ⟨k', hleft, hreadLeft.binary hle hreadRight hright.ne_nil hsign⟩
  | negate hinner hnumber ih =>
    intro left
    obtain ⟨need, hneed⟩ := ih left
    refine ⟨need + 1, fun levels context k hrecords hk hle => ?_⟩
    obtain ⟨j, rfl⟩ : ∃ j, k = j + 1 := ⟨k - 1, by omega⟩
    obtain ⟨k', hleft, hread⟩ := hneed levels context j hrecords (by omega) (by omega)
    exact ⟨k', hleft, hread.negate hinner.ne_nil hnumber⟩
  | negative h => exact fun left => ⟨left, fun _ _ k _ hk _ => ⟨k, hk, readAt_negative h⟩⟩
  | field _ hn ih =>
    intro left
    obtain ⟨need, hneed⟩ := ih (left + 1)
    refine ⟨need, fun levels context k hrecords hk hle => ?_⟩
    obtain ⟨j, hj, hread⟩ := hneed levels context k hrecords hk hle
    obtain ⟨j, rfl⟩ : ∃ i, j = i + 1 := ⟨j - 1, by omega⟩
    exact ⟨j, by omega, hread.field hn⟩
  | number h =>
    exact readable_primary 0 (by simp) (by simp) fun _ _ _ _ hrecords _ _ hfollows =>
      gives_primary_number h (hrecords ▸ hfollows)
  | range hmin h =>
    exact readable_primary 0 (by simp) (by simp) fun _ _ _ _ hrecords _ _ hfollows =>
      gives_primary_range hmin h (hrecords ▸ hfollows)
  | string s =>
    exact readable_primary 0 (by simp) (by simp) fun _ _ _ _ _ _ _ _ =>
      gives_primary_string s
  | parenthesized _ ih =>
    obtain ⟨need, hneed⟩ := ih.inner
    refine readable_primary need (by simp) (by simp) ?_
    intro levels context k following _ hk hle _
    rw [List.cons_append, List.append_assoc]
    exact gives_primary_parenthesized
      (hneed k hk levels { context with records := true } rfl hle) following
  | name hn =>
    exact readable_primary 0 (by simp) (by simp) fun _ _ _ _ hrecords _ _ hfollows =>
      gives_primary_name hn (hrecords ▸ hfollows)
  | path hn hm =>
    exact readable_primary 0 (by simp) (by simp) fun _ _ _ _ hrecords _ _ hfollows =>
      gives_primary_path hn hm (hrecords ▸ hfollows)
  | call hcallee hargs hlist ih =>
    exact readable_call hcallee hlist (fun p hp => (hargs p hp).exists_head) ih
  | record howner hlabels _ hlist ih => exact readable_record howner hlabels hlist ih
  | select _ hne hbindings hpatterns _ hlist ih ihPatterns ihBodies =>
    exact readable_select ih hne hbindings hlist
      (fun a ha p hp => (hpatterns a ha p hp).exists_head) ihPatterns ihBodies

end Expr
end TypedFlow
