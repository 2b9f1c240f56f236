import TypedFlow.Declaration.Parse
import TypedFlow.Proofs.Expr.WellFormed

/-!
# Well-formed declarations

Every declaration that is read has a name and is made of well-formed expressions, and an enum lists
a variant.
-/
namespace TypedFlow.Declaration
open Reader

def WellFormed : Declaration → Prop
  | .struct name fields => IsName name ∧ ∀ f ∈ fields, IsName f.1 ∧ f.2.WellFormed
  | .enum name variants => IsName name ∧ ∀ v ∈ variants, IsName v.1 ∧ ∀ e ∈ v.2, e.WellFormed
  | .function name params body =>
    IsFunctionName name ∧ (∀ p ∈ params, IsName p.1 ∧ p.2.WellFormed) ∧ body.WellFormed
  | .alias name value => IsName name ∧ value.WellFormed

/-- An enum lists a variant. -/
def Listed : Declaration → Prop
  | .enum _ variants => variants ≠ []
  | _ => True

/-- A declaration as it can be read. -/
structure Readable (d : Declaration) : Prop where
  wellFormed : d.WellFormed
  listed : d.Listed

theorem yields_typedName (role : String) :
    Yields (typedName role) fun field => IsName field.1 ∧ field.2.WellFormed :=
  Expr.yields_labelled Expr.reads_expression role

theorem yields_structItem : Yields structItem Readable := by
  refine (yields_identifier _).bind fun n hn => (yields_eat _).bind fun _ _ => yields_ite ?_ ?_
  · exact fun _ => yields_pure ⟨⟨hn, fun _ h => absurd h List.not_mem_nil⟩, trivial⟩
  · exact fun _ => (yields_expect _).bind fun _ _ =>
      ((yields_typedName _).delimited .closeBrace).bind fun _ hfields =>
        yields_pure ⟨⟨hn, hfields⟩, trivial⟩

theorem yields_variant :
    Yields variant fun v => IsName v.1 ∧ ∀ e ∈ v.2, e.WellFormed := by
  refine (yields_identifier _).bind fun n hn => (yields_eat _).bind fun _ _ => yields_ite ?_ ?_
  · exact fun _ => Expr.reads_expression.bind fun _ he => (yields_expect _).bind fun _ _ =>
      yields_pure ⟨hn, fun _ h => Option.some.inj h ▸ he⟩
  · exact fun _ => yields_pure ⟨hn, fun _ h => by cases h⟩

theorem yields_enumItem : Yields enumItem Readable :=
  (yields_identifier _).bind fun _ hn => (yields_expect _).bind fun _ _ =>
    (yields_variant.delimited .closeBrace).bind fun _ hvariants =>
      yields_unless fun hne => yields_pure ⟨⟨hn, hvariants⟩, fun hnil => hne (hnil ▸ rfl)⟩

theorem yields_functionItem : Yields functionItem Readable := by
  have hrest : ∀ n, IsFunctionName n → Yields (do
      expect .openParen
      let params ← delimited .closeParen (typedName "parameter name")
      expect .openBrace
      let body ← Expr.expression
      expect .closeBrace
      return .function n params body) Readable :=
    fun n hn => (yields_expect _).bind fun _ _ =>
      ((yields_typedName _).delimited .closeParen).bind fun _ hparams =>
        (yields_expect _).bind fun _ _ => Expr.reads_expression.bind fun _ hbody =>
          (yields_expect _).bind fun _ _ => yields_pure ⟨⟨hn, hparams, hbody⟩, trivial⟩
  refine (yields_identifier _).bind fun n hn => (yields_eat _).bind fun _ _ => yields_ite ?_ ?_
  · exact fun _ => ((yields_identifier _).map fun member hm =>
      (.inr ⟨n, member, hn, hm, rfl⟩ : IsFunctionName (pathName n member))).bind hrest
  · exact fun _ => (yields_pure (.inl hn)).bind hrest

theorem yields_aliasItem : Yields aliasItem Readable :=
  (yields_identifier _).bind fun _ hn => (yields_expect _).bind fun _ _ =>
    Expr.reads_expression.bind fun _ hvalue => (yields_expect _).bind fun _ _ =>
      yields_pure ⟨⟨hn, hvalue⟩, trivial⟩

theorem yields_item : Yields item Readable :=
  (yields_eatWord _).bind fun _ _ => yields_ite (fun _ => yields_structItem) fun _ =>
    (yields_eatWord _).bind fun _ _ => yields_ite (fun _ => yields_enumItem) fun _ =>
      (yields_eatWord _).bind fun _ _ => yields_ite (fun _ => yields_functionItem) fun _ =>
        (yields_eatWord _).bind fun _ _ => yields_ite (fun _ => yields_aliasItem) fun _ =>
          yields_expected _

theorem yields_items (rounds : Nat) : Yields (items rounds) fun ds => ∀ d ∈ ds, d.Readable := by
  induction rounds with
  | zero => exact yields_pure fun _ h => absurd h List.not_mem_nil
  | succ rounds ih =>
    refine yields_peek.bind fun _ _ => yields_ite (fun _ => ?_) fun _ => ?_
    · exact yields_pure fun _ h => absurd h List.not_mem_nil
    · refine (yields_eat _).bind fun _ _ => yields_ite (fun _ => ih) fun _ => ?_
      exact yields_item.bind fun _ hfirst => ih.bind fun _ hrest =>
        yields_pure (List.forall_mem_cons.2 ⟨hfirst, hrest⟩)

theorem readable_of_parse {source : String} {ds : List Declaration} (h : parse source = .ok ds) :
    ∀ d ∈ ds, d.Readable :=
  Yields.run (yields_get.bind fun _ _ => yields_items _) h

end TypedFlow.Declaration
