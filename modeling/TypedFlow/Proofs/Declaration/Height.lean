import TypedFlow.Declaration.Parse
import TypedFlow.Proofs.Expr.Height

/-!
# The height of declarations

Every expression of a declaration that is read starts with all levels, and is no higher than these
allow for.
-/
namespace TypedFlow.Declaration
open Reader TypedFlow.Expr

/-- No expression of the declaration is higher. -/
def Within (n : Nat) : Declaration → Prop
  | .struct _ fields => ∀ f ∈ fields, f.2.height ≤ n
  | .enum _ variants => ∀ v ∈ variants, ∀ e ∈ v.2, e.height ≤ n
  | .function _ params body => (∀ p ∈ params, p.2.height ≤ n) ∧ body.height ≤ n
  | .alias _ value => value.height ≤ n

/-- The reader gives a declaration that is no higher than all levels allow for. -/
def Limited (r : Reader Declaration) : Prop :=
  ∀ n, Spends maxNesting n (fun _ d => d.Within (heightLimit maxNesting)) r

theorem spends_typedNames (role : String) (close : Symbol) (n : Nat) :
    Spends maxNesting n (fun _ fields => ∀ f ∈ fields, f.2.height ≤ heightLimit maxNesting)
      (delimited close (typedName role)) :=
  Spends.delimited (fun _ _ _ _ h => h) (fun k _ => spends_labelled spends_expression role k) close

theorem spends_variant (n : Nat) :
    Spends maxNesting n (fun _ v => ∀ e ∈ v.2, e.height ≤ heightLimit maxNesting) variant := by
  refine (spends_identifier _).bind fun _ _ _ _ => (spends_eat _).bind fun _ _ _ _ =>
    spends_ite ?_ ?_
  · exact (spends_expression _).bind fun _ _ _ he => (spends_expect _).bind fun _ _ _ _ =>
      spends_pure fun _ h => Option.some.inj h ▸ he
  · exact spends_pure fun _ h => by cases h

theorem limited_structItem : Limited structItem := by
  intro n
  refine (spends_identifier _).bind fun _ _ _ _ => (spends_eat _).bind fun _ _ _ _ =>
    spends_ite ?_ ?_
  · exact spends_pure fun _ h => absurd h List.not_mem_nil
  · exact (spends_expect _).bind fun _ _ _ _ => (spends_typedNames _ _ _).bind
      fun _ _ _ hfields => spends_pure hfields

theorem limited_enumItem : Limited enumItem := fun _ =>
  (spends_identifier _).bind fun _ _ _ _ => (spends_expect _).bind fun _ _ _ _ =>
    (Spends.delimited (fun _ _ _ _ h => h) (fun k _ => spends_variant k) .closeBrace).bind
      fun _ _ _ hvariants => spends_unless (spends_pure hvariants)

theorem limited_functionItem : Limited functionItem := by
  have hrest : ∀ name : String, Limited (do
      expect .openParen
      let params ← delimited .closeParen (typedName "parameter name")
      expect .openBrace
      let body ← Expr.expression
      expect .closeBrace
      return Declaration.function name params body) :=
    fun _ _ => (spends_expect _).bind fun _ _ _ _ => (spends_typedNames _ _ _).bind
      fun _ _ _ hparams => (spends_expect _).bind fun _ _ _ _ => (spends_expression _).bind
        fun _ _ _ hbody => (spends_expect _).bind fun _ _ _ _ => spends_pure ⟨hparams, hbody⟩
  intro n
  refine (spends_identifier _).bind fun _ name _ _ => (spends_eat _).bind fun _ _ _ _ =>
    spends_ite ?_ ?_
  · exact ((spends_identifier _).map_any _).bind fun k full _ _ => hrest full k
  · exact (spends_any name).bind fun k full _ _ => hrest full k

theorem limited_aliasItem : Limited aliasItem := fun _ =>
  (spends_identifier _).bind fun _ _ _ _ => (spends_expect _).bind fun _ _ _ _ =>
    (spends_expression _).bind fun _ _ _ hvalue => (spends_expect _).bind fun _ _ _ _ =>
      spends_pure hvalue

theorem limited_item : Limited item := fun _ =>
  (spends_eatWord _).bind fun _ _ _ _ => spends_ite (limited_structItem _) <|
    (spends_eatWord _).bind fun _ _ _ _ => spends_ite (limited_enumItem _) <|
      (spends_eatWord _).bind fun _ _ _ _ => spends_ite (limited_functionItem _) <|
        (spends_eatWord _).bind fun _ _ _ _ => spends_ite (limited_aliasItem _) (spends_expected _)

theorem spends_items (rounds n : Nat) :
    Spends maxNesting n (fun _ ds => ∀ d ∈ ds, d.Within (heightLimit maxNesting))
      (items rounds) := by
  induction rounds generalizing n with
  | zero => exact spends_pure fun _ h => absurd h List.not_mem_nil
  | succ rounds ih =>
    refine spends_peek.bind fun _ _ _ _ => spends_ite ?_ ?_
    · exact spends_pure fun _ h => absurd h List.not_mem_nil
    · refine (spends_eat _).bind fun _ _ _ _ => spends_ite (ih _) ?_
      exact (limited_item _).bind fun _ _ _ hfirst => (ih _).bind fun _ _ _ hrest =>
        spends_pure (List.forall_mem_cons.2 ⟨hfirst, hrest⟩)

/-- No expression of a declaration that is read is higher than the levels allow for. -/
theorem height_le_of_parse {source : String} {ds : List Declaration} (h : parse source = .ok ds) :
    ∀ d ∈ ds, d.Within (heightLimit maxNesting) :=
  Spends.run (c := 0) (spends_get.bind fun _ _ _ _ => spends_items _ _) h

end TypedFlow.Declaration
