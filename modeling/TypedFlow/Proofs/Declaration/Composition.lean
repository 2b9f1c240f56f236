import TypedFlow.Declaration.Parse
import TypedFlow.Proofs.Expr.Extending
import TypedFlow.Proofs.Source.Joining
import TypedFlow.Scope.Build

/-!
# Definition sources behind each other

Every item ends with a closing symbol, and it is read without a look at what comes behind. So the
declarations of two sources behind each other are those of the first and then those of the second,
and a scope may be built from either.
-/
namespace TypedFlow
namespace Declaration
open Reader

section Items

theorem extends_typedName (role : String) : Extends (typedName role) :=
  Expr.extends_labelled Expr.extends_expression role

theorem extends_variant : Extends variant := by
  refine (extends_identifier _).bind fun n => (extends_eat _).bind fun _ => extends_ite ?_ ?_
  · exact Expr.extends_expression.bind fun _ => (extends_expect _).bind fun _ => extends_pure _
  · exact extends_pure _

theorem closes_structItem : Closes structItem :=
  (extends_identifier _).closes fun _ => closes_eat (by decide) (settled_pure _)
    ((extends_expect _).closes fun _ => ((extends_typedName _).delimited (by decide)).bind
      fun _ => settled_pure _)

theorem closes_enumItem : Closes enumItem :=
  (extends_identifier _).closes fun _ => (extends_expect _).closes fun _ =>
    (extends_variant.delimited (by decide)).bind fun _ => settled_unless (settled_pure _)

theorem closes_functionItem : Closes functionItem := by
  have hrest : ∀ n : String, Closes (do
      expect .openParen
      let params ← delimited .closeParen (typedName "parameter name")
      expect .openBrace
      let body ← Expr.expression
      expect .closeBrace
      return Declaration.function n params body) := fun n =>
    (extends_expect _).closes fun _ =>
      ((extends_typedName _).delimited (by decide)).toExtends.closes fun _ =>
        (extends_expect _).closes fun _ => Expr.extends_expression.closes fun _ =>
          (closes_expect (by decide)).bind fun _ => settled_pure _
  refine (extends_identifier _).closes fun n => (extends_eat _).closes fun _ => closes_ite ?_ ?_
  · exact ((extends_identifier _).map _).closes hrest
  · exact (extends_pure n).closes hrest

theorem closes_aliasItem : Closes aliasItem :=
  (extends_identifier _).closes fun _ => (extends_expect _).closes fun _ =>
    Expr.extends_expression.closes fun _ => (closes_expect (by decide)).bind fun _ => settled_pure _

theorem closes_item : Closes item :=
  (extends_eatWord _).closes fun _ => closes_ite closes_structItem <|
    (extends_eatWord _).closes fun _ => closes_ite closes_enumItem <|
      (extends_eatWord _).closes fun _ => closes_ite closes_functionItem <|
        (extends_eatWord _).closes fun _ => closes_ite closes_aliasItem (closes_expected _)

theorem keeps_typedName (role : String) : Keeps (typedName role) :=
  (keeps_identifier role).bind fun _ => (keeps_expect .colon).bind fun _ =>
    Expr.keeps_expression.bind fun _ => keeps_pure _

theorem keeps_structItem : Keeps structItem :=
  (keeps_identifier _).bind fun _ => (keeps_eat _).bind fun _ => keeps_ite (keeps_pure _)
    ((keeps_expect _).bind fun _ => ((keeps_typedName _).delimited _).bind fun _ => keeps_pure _)

theorem keeps_variant : Keeps variant := by
  refine (keeps_identifier _).bind fun n => (keeps_eat _).bind fun _ => keeps_ite ?_ ?_
  · exact Expr.keeps_expression.bind fun _ => (keeps_expect _).bind fun _ => keeps_pure _
  · exact keeps_pure _

theorem keeps_enumItem : Keeps enumItem :=
  (keeps_identifier _).bind fun _ => (keeps_expect _).bind fun _ =>
    (keeps_variant.delimited _).bind fun _ =>
      keeps_ite ((keeps_fail _).bind fun _ => keeps_pure _) (keeps_pure _)

theorem keeps_functionItem : Keeps functionItem := by
  have hrest : ∀ n : String, Keeps (do
      expect .openParen
      let params ← delimited .closeParen (typedName "parameter name")
      expect .openBrace
      let body ← Expr.expression
      expect .closeBrace
      return Declaration.function n params body) := fun n =>
    (keeps_expect _).bind fun _ => ((keeps_typedName _).delimited _).bind fun _ =>
      (keeps_expect _).bind fun _ => Expr.keeps_expression.bind fun _ =>
        (keeps_expect _).bind fun _ => keeps_pure _
  refine (keeps_identifier _).bind fun n => (keeps_eat _).bind fun _ => keeps_ite ?_ ?_
  · exact ((keeps_identifier _).map _).bind hrest
  · exact (keeps_pure n).bind hrest

theorem keeps_aliasItem : Keeps aliasItem :=
  (keeps_identifier _).bind fun _ => (keeps_expect _).bind fun _ =>
    Expr.keeps_expression.bind fun _ => (keeps_expect _).bind fun _ => keeps_pure _

theorem keeps_item : Keeps item :=
  (keeps_eatWord _).bind fun _ => keeps_ite keeps_structItem <|
    (keeps_eatWord _).bind fun _ => keeps_ite keeps_enumItem <|
      (keeps_eatWord _).bind fun _ => keeps_ite keeps_functionItem <|
        (keeps_eatWord _).bind fun _ => keeps_ite keeps_aliasItem (keeps_expected _)

end Items

section Runs
variable {context : ReaderContext} {tokens rest more : List PlacedToken} {k k' rounds : Nat}
  {ds : List Declaration}

theorem extends_items (rounds : Nat) : Extends (items rounds) := by
  induction rounds with
  | zero => exact extends_pure []
  | succ rounds ih =>
    refine extends_peek.bind fun _ => extends_ite (extends_pure []) ?_
    refine (extends_eat _).bind fun _ => extends_ite ih ?_
    exact closes_item.toExtends.bind fun _ => ih.bind fun _ => extends_pure _

theorem items_nil (rounds : Nat) : items rounds context ⟨[], k⟩ = .ok ([], ⟨[], k⟩) := by
  cases rounds <;> rfl

theorem items_semicolon {t : PlacedToken} (ht : t.token = .symbol .semicolon) :
    items (rounds + 1) context ⟨t :: rest, k⟩ = items rounds context ⟨rest, k⟩ := by
  change (eat .semicolon context ⟨t :: rest, k⟩ >>= fun p =>
    (if p.1 then items rounds else do return (← item) :: (← items rounds)) context p.2) = _
  have hhead : (t :: rest).head?.map (·.token) = some (.symbol .semicolon) := congrArg some ht
  rw [run_eat, if_pos hhead]
  rfl

/-- An item that does not begin with a semicolon, and those behind it. -/
theorem items_cons {t : PlacedToken} (ht : t.token ≠ .symbol .semicolon) :
    items (rounds + 1) context ⟨t :: rest, k⟩ = (item context ⟨t :: rest, k⟩ >>= fun p =>
      (items rounds context p.2).map fun q => (p.1 :: q.1, q.2)) := by
  have hhead : ¬ (t :: rest).head?.map (·.token) = some (.symbol .semicolon) :=
    fun h => ht (Option.some.inj h)
  change (eat .semicolon context ⟨t :: rest, k⟩ >>= fun p =>
    (if p.1 then items rounds else do return (← item) :: (← items rounds)) context p.2) = _
  rw [run_eat, if_neg hhead]
  change (item context ⟨t :: rest, k⟩ >>= fun p =>
    (items rounds context p.2 >>= fun q => Except.ok (p.1 :: q.1, q.2))) = _
  cases item context ⟨t :: rest, k⟩ with
  | error e => rfl
  | ok p =>
    change (items rounds context p.2 >>= fun q => Except.ok (p.1 :: q.1, q.2)) =
      (items rounds context p.2).map fun q => (p.1 :: q.1, q.2)
    cases items rounds context p.2 <;> rfl

/-- Every item takes a token, so that with as many rounds as tokens there are always enough. -/
theorem items_congr {rounds' : Nat} (hrounds : tokens.length ≤ rounds)
    (hrounds' : tokens.length ≤ rounds') :
    items rounds context ⟨tokens, k⟩ = items rounds' context ⟨tokens, k⟩ := by
  induction rounds generalizing rounds' k tokens with
  | zero =>
    obtain rfl := List.length_eq_zero_iff.1 (Nat.le_zero.1 hrounds)
    rw [items_nil, items_nil]
  | succ rounds ih =>
    cases tokens with
    | nil => rw [items_nil, items_nil]
    | cons t tokens =>
      simp only [List.length_cons] at hrounds hrounds'
      obtain ⟨rounds', rfl⟩ : ∃ n, rounds' = n + 1 := ⟨rounds' - 1, by omega⟩
      by_cases ht : t.token = .symbol .semicolon
      · rw [items_semicolon ht, items_semicolon ht]
        exact ih (by omega) (by omega)
      · rw [items_cons ht, items_cons ht]
        cases hitem : item context ⟨t :: tokens, k⟩ with
        | error e => rfl
        | ok p =>
          obtain ⟨first, rest, left⟩ := p
          have hlt := closes_item.length_lt hitem
          rw [List.length_cons] at hlt
          have hrest : items rounds context ⟨rest, left⟩ = items rounds' context ⟨rest, left⟩ :=
            ih (by omega) (by omega)
          change (items rounds context ⟨rest, left⟩).map _ = _
          rw [hrest]
          rfl

/-- What has been read from a first token on: nothing of a semicolon, else an item. -/
theorem of_items {t : PlacedToken}
    (hrun : items (rounds + 1) context ⟨t :: tokens, k⟩ = .ok (ds, ⟨rest, k'⟩)) :
    t.token = .symbol .semicolon ∧ items rounds context ⟨tokens, k⟩ = .ok (ds, ⟨rest, k'⟩) ∨
      t.token ≠ .symbol .semicolon ∧ ∃ first middle others,
        item context ⟨t :: tokens, k⟩ = .ok (first, ⟨middle, k⟩) ∧
          items rounds context ⟨middle, k⟩ = .ok (others, ⟨rest, k'⟩) ∧ ds = first :: others := by
  by_cases ht : t.token = .symbol .semicolon
  · rw [items_semicolon ht] at hrun
    exact .inl ⟨ht, hrun⟩
  · rw [items_cons ht] at hrun
    obtain ⟨⟨first, middle, left⟩, hitem, hmore⟩ := of_bind_eq_ok hrun
    obtain rfl : left = k := keeps_item _ _ _ _ hitem
    change (items rounds context ⟨middle, left⟩).map _ = _ at hmore
    cases hmiddle : items rounds context ⟨middle, left⟩ with
    | error e =>
      rw [hmiddle] at hmore
      cases hmore
    | ok q =>
      obtain ⟨others, state⟩ := q
      rw [hmiddle] at hmore
      cases hmore
      exact .inr ⟨ht, first, middle, others, hitem, hmiddle, rfl⟩

/-- The last token of declarations is a closing symbol. -/
theorem closing_of_items (hrounds : tokens.length ≤ rounds)
    (hrun : items rounds context ⟨tokens, k⟩ = .ok (ds, ⟨rest, k'⟩)) :
    ∀ t ∈ tokens.getLast?, Closing t := by
  induction rounds generalizing tokens ds with
  | zero =>
    obtain rfl := List.length_eq_zero_iff.1 (Nat.le_zero.1 hrounds)
    exact fun _ h => by cases h
  | succ rounds ih =>
    cases tokens with
    | nil => exact fun _ h => by cases h
    | cons t tokens =>
      rw [List.length_cons] at hrounds
      -- What is left behind the first item or semicolon ends as the whole does, unless it is empty.
      have hlast : ∀ front u left, t :: tokens = front ++ u :: left → Closing u →
          (∀ v ∈ left.getLast?, Closing v) → ∀ v ∈ (t :: tokens).getLast?, Closing v := by
        intro front u left htokens hu hleft v hv
        rw [htokens, List.getLast?_append, List.getLast?_cons] at hv
        cases hnext : left.getLast? with
        | none =>
          rw [hnext] at hv
          cases hv
          exact hu
        | some w =>
          rw [hnext] at hv hleft
          cases hv
          exact hleft w rfl
      rcases of_items hrun with ⟨ht, hrest⟩ | ⟨-, first, middle, others, hitem, hothers, -⟩
      · exact hlast [] t tokens rfl ⟨_, by decide, ht⟩ (ih (by omega) hrest)
      · obtain ⟨front, u, htokens, hu⟩ := closes_item.ends hitem
        have hlt := closes_item.length_lt hitem
        rw [List.length_cons] at hlt
        exact hlast front u middle htokens hu (ih (by omega) hothers)

/-- With more behind them the items come first, and then those of what is behind. -/
theorem items_extended {f : Position → Position} {finish finish' : Position} {records : Bool}
    (hrounds : tokens.length ≤ rounds)
    (hrun : items rounds ⟨finish, records⟩ ⟨tokens, k⟩ = .ok (ds, ⟨rest, k'⟩)) {rounds' : Nat}
    (hrounds' : (extended f tokens more).length ≤ rounds') :
    items rounds' ⟨finish', records⟩ ⟨extended f tokens more, k⟩ =
      (items more.length ⟨finish', records⟩ ⟨more, k⟩).map fun q => (ds ++ q.1, q.2) := by
  have hnil : ∀ {n k}, more.length ≤ n → items n ⟨finish', records⟩ ⟨more, k⟩ =
      (items more.length ⟨finish', records⟩ ⟨more, k⟩).map fun q => ([] ++ q.1, q.2) := by
    intro n k hn
    rw [items_congr hn (Nat.le_refl _)]
    cases items more.length ⟨finish', records⟩ ⟨more, k⟩ <;> rfl
  rw [length_extended] at hrounds'
  induction rounds generalizing tokens k ds rounds' with
  | zero =>
    obtain rfl := List.length_eq_zero_iff.1 (Nat.le_zero.1 hrounds)
    cases hrun
    exact hnil (by omega)
  | succ rounds ih =>
    cases tokens with
    | nil =>
      cases hrun
      exact hnil (by omega)
    | cons t tokens =>
      rw [List.length_cons] at hrounds hrounds'
      obtain ⟨rounds', rfl⟩ : ∃ n, rounds' = n + 1 := ⟨rounds' - 1, by omega⟩
      have hextended : extended f (t :: tokens) more = t.move f :: extended f tokens more := rfl
      rcases of_items hrun with ⟨ht, hrest⟩ | ⟨ht, first, middle, others, hitem, hothers, rfl⟩
      · rw [hextended, items_semicolon (t := t.move f) ht]
        exact ih (by omega) hrest (by omega)
      · have hlt := closes_item.length_lt hitem
        rw [List.length_cons] at hlt
        have hlength : middle.length + more.length ≤ rounds' := by omega
        rw [hextended, items_cons (t := t.move f) ht, ← hextended,
          closes_item.any hitem f finish' more]
        change (items rounds' ⟨finish', records⟩ ⟨extended f middle more, k⟩).map _ = _
        rw [ih (by omega) hothers hlength]
        cases items more.length ⟨finish', records⟩ ⟨more, k⟩ <;> rfl

end Runs

section Sources
open Source (EndsInComment behind)
variable {a b : String} {x : List Declaration}

/-- What is read from the tokens of a source. -/
def readItems (list : TokenList) : Except ParseError (List Declaration) :=
  (items list.tokens.length ⟨list.finish, true⟩ ⟨list.tokens, maxNesting⟩).map (·.1)

theorem parse_eq (source : String) : parse source = Source.tokenize source >>= readItems := by
  unfold parse Reader.run
  cases Source.tokenize source with
  | error e => rfl
  | ok list =>
    change (items list.tokens.length ⟨list.finish, true⟩ ⟨list.tokens, maxNesting⟩ >>= fun p =>
      Except.ok p.1) = readItems list
    unfold readItems
    cases items list.tokens.length ⟨list.finish, true⟩ ⟨list.tokens, maxNesting⟩ <;> rfl

/-- Somewhere else the same is read, or the same error is found there. -/
theorem readItems_move (f : Position → Position) (list : TokenList) :
    readItems (list.move f) = (readItems list).mapError (·.move f) := by
  have hmoved : (list.move f).tokens = extended f list.tokens [] := (List.append_nil _).symm
  unfold readItems
  rw [hmoved, length_extended, List.length_nil, Nat.add_zero]
  cases hrun : items list.tokens.length ⟨list.finish, true⟩ ⟨list.tokens, maxNesting⟩ with
  | error e =>
    rw [show (list.move f).finish = f list.finish from rfl, (extends_items _).error hrun f]
    rfl
  | ok p =>
    obtain ⟨ds, rest, left⟩ := p
    rw [((extends_items _).ok hrun).2 f _ [] (absurd rfl)]
    rfl

/-- In front of tokens what has been read alone is read first. -/
theorem readItems_prepend {front : TokenList} (hfront : readItems front = .ok x)
    (list : TokenList) : readItems (list.prepend front.tokens) = (readItems list).map (x ++ ·) := by
  unfold readItems at hfront
  cases hrun : items front.tokens.length ⟨front.finish, true⟩ ⟨front.tokens, maxNesting⟩ with
  | error e =>
    rw [hrun] at hfront
    cases hfront
  | ok p =>
    obtain ⟨ds, rest, left⟩ := p
    rw [hrun] at hfront
    cases hfront
    have hextended : (list.prepend front.tokens).tokens = extended id front.tokens list.tokens :=
      congrArg (· ++ list.tokens) (List.map_id front.tokens).symm
    unfold readItems
    rw [hextended, items_extended (Nat.le_refl _) hrun (Nat.le_refl _)]
    change ((items _ ⟨list.finish, true⟩ _).map _).map _ = _
    cases items list.tokens.length ⟨list.finish, true⟩ ⟨list.tokens, maxNesting⟩ <;> rfl

theorem closing_of_readItems {list : TokenList} (h : readItems list = .ok x) :
    ∀ t ∈ list.tokens.getLast?, Closing t := by
  unfold readItems at h
  cases hrun : items list.tokens.length ⟨list.finish, true⟩ ⟨list.tokens, maxNesting⟩ with
  | error e =>
    rw [hrun] at h
    cases h
  | ok p =>
    obtain ⟨ds, rest, left⟩ := p
    exact closing_of_items (Nat.le_refl _) hrun

/-- Behind a source that can be read, another one is read as it is alone, and an error in it is
found as far behind. Only a newline may come behind a comment. -/
theorem parse_append (ha : parse a = .ok x)
    (hseam : EndsInComment a.toList → ∀ c ∈ b.toList.head?, c = '\n') :
    parse (a ++ b) = ((parse b).map (x ++ ·)).mapError (·.move (behind a.toList)) := by
  rw [parse_eq] at ha
  obtain ⟨list, hlist, hitems⟩ := of_bind_eq_ok ha
  rw [parse_eq, parse_eq, Source.tokenize_append hlist (closing_of_readItems hitems) hseam]
  cases Source.tokenize b with
  | error e => rfl
  | ok following =>
    change readItems ((following.move (behind a.toList)).prepend list.tokens) =
      ((readItems following).map (x ++ ·)).mapError (·.move (behind a.toList))
    rw [readItems_prepend hitems, readItems_move]
    cases readItems following <;> rfl

theorem parse_newline : parse "\n" = .ok [] := by
  have htokens : Source.tokenize "\n" = .ok ⟨[], ⟨2, 1⟩⟩ := Source.tokensFrom_eq _ _
  rw [parse_eq, htokens]
  rfl

theorem parse_append_newline (ha : parse a = .ok x) (b : String) : parse (a ++ "\n" ++ b) =
    ((parse b).map (x ++ ·)).mapError (·.move (behind (a.toList ++ ['\n']))) := by
  have hline : parse (a ++ "\n") = .ok x := by
    have hseam : ∀ c ∈ "\n".toList.head?, c = '\n' := fun c hc => (Option.some.inj hc).symm
    rw [parse_append ha fun _ => hseam, parse_newline]
    exact congrArg Except.ok (List.append_nil x)
  have htext : (a ++ "\n").toList = a.toList ++ ['\n'] := String.toList_append
  rw [parse_append hline fun hcomment => absurd (htext ▸ hcomment)
    (Source.not_endsInComment_newline _), htext]

end Sources

end Declaration
end TypedFlow
