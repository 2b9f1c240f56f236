import TypedFlow.Proofs.Declaration.Composition

/-!
# One layer from several sources

A file of definitions may be cut between its items. Adding the parts one after the other does to a
layer what adding the file does.
-/
namespace TypedFlow
open Declaration (parse parse_append parse_append_newline)
open Source (EndsInComment behind behind_newline)

/-- The file is cut into sources that can be read. Between two of them there may be a newline, which
belongs to neither; otherwise the first may not leave a comment open. -/
inductive SplitsInto : String → List String → Prop
  | whole {source : String} {ds : List Declaration} : parse source = .ok ds →
      SplitsInto source [source]
  | newline {source rest : String} {ds : List Declaration} {sources : List String} :
      parse source = .ok ds → SplitsInto rest sources →
      SplitsInto (source ++ "\n" ++ rest) (source :: sources)
  | between {source rest : String} {ds : List Declaration} {sources : List String} :
      parse source = .ok ds → ¬ EndsInComment source.toList → SplitsInto rest sources →
      SplitsInto (source ++ rest) (source :: sources)

namespace ScopeBuilder
variable {b : ScopeBuilder}

/-- What comes next, unless something has failed. -/
def andThen (outcome : ScopeBuilder × Except DefinitionError Unit)
    (next : ScopeBuilder → ScopeBuilder × Except DefinitionError Unit) :
    ScopeBuilder × Except DefinitionError Unit :=
  match outcome with
  | (b, .ok ()) => next b
  | (b, .error e) => (b, .error e)

/-- Adds the sources in order up to the first fault. -/
def addSources (b : ScopeBuilder) : List String → ScopeBuilder × Except DefinitionError Unit
  | [] => (b, .ok ())
  | source :: sources => andThen (b.addSource source) (·.addSources sources)

theorem addAll_append (b : ScopeBuilder) (xs ys : List Declaration) :
    b.addAll (xs ++ ys) = andThen (b.addAll xs) (·.addAll ys) := by
  induction xs generalizing b with
  | nil => rfl
  | cons x xs ih =>
    rw [List.cons_append, addAll, addAll]
    cases b.add x with
    | error e => rfl
    | ok b => exact ih b

theorem addSource_eq {source : String} {ds : List Declaration} (h : parse source = .ok ds)
    (b : ScopeBuilder) : b.addSource source = b.addAll ds := by
  rw [addSource, h]

/-- What is cut can be read as a whole, and it adds what its parts add. -/
theorem addSource_of_splitsInto {file : String} {sources : List String}
    (h : SplitsInto file sources) :
    (∃ ds, parse file = .ok ds) ∧ ∀ b : ScopeBuilder, b.addSource file = b.addSources sources := by
  have hstep : ∀ {first rest all : String} {xs ys : List Declaration} {others : List String},
      parse first = .ok xs → parse rest = .ok ys → parse all = .ok (xs ++ ys) →
      (∀ b : ScopeBuilder, b.addSource rest = b.addSources others) →
      ∀ b : ScopeBuilder, b.addSource all = b.addSources (first :: others) := by
    intro first rest all xs ys others hfirst hrest hall ih b
    rw [addSource_eq hall, addAll_append, addSources, addSource_eq hfirst]
    simp only [← ih, addSource_eq hrest]
  induction h with
  | @whole source ds hparse =>
    refine ⟨⟨ds, hparse⟩, fun b => ?_⟩
    rw [addSources]
    cases b.addSource source with
    | mk b result => cases result <;> rfl
  | @newline source rest xs sources hparse _ ih =>
    obtain ⟨⟨ys, hrest⟩, ih⟩ := ih
    have hall : parse (source ++ "\n" ++ rest) = .ok (xs ++ ys) := by
      rw [parse_append_newline hparse, hrest]
      rfl
    exact ⟨⟨_, hall⟩, hstep hparse hrest hall ih⟩
  | @between source rest xs sources hparse hcomment _ ih =>
    obtain ⟨⟨ys, hrest⟩, ih⟩ := ih
    have hall : parse (source ++ rest) = .ok (xs ++ ys) := by
      rw [parse_append hparse fun h => absurd h hcomment, hrest]
      rfl
    exact ⟨⟨_, hall⟩, hstep hparse hrest hall ih⟩

/-- Definition sources compose. With a newline between them two sources are read one after the
other, an error in the second is found as many lines further down as the first one has, and adding
the parts of a file to a layer is adding the file. -/
theorem sources_compose :
    (∀ first second xs ys, parse first = .ok xs → parse second = .ok ys →
      parse (first ++ "\n" ++ second) = .ok (xs ++ ys)) ∧
    (∀ first second xs e, parse first = .ok xs → parse second = .error e →
      parse (first ++ "\n" ++ second) = .error
        ⟨⟨e.position.line + (first.toList.count '\n' + 1), e.position.column⟩, e.cause⟩) ∧
    ∀ file sources, SplitsInto file sources → ∀ b : ScopeBuilder,
      b.addSource file = b.addSources sources := by
  refine ⟨fun first second xs ys hfirst hsecond => ?_, fun first second xs e hfirst hsecond => ?_,
    fun file sources hsplits => (addSource_of_splitsInto hsplits).2⟩
  · rw [parse_append_newline hfirst, hsecond]
    rfl
  · rw [parse_append_newline hfirst, hsecond]
    change Except.error (e.move (behind (first.toList ++ ['\n']))) = _
    rw [ParseError.move, behind_newline]

/-- Sources behind a comment, one of them without a value, and a cut between two items in a line. -/
theorem struct_and_alias_compose :
    ∃ xs ys, parse "struct A; # let" = .ok xs ∧ parse "let b = A;" = .ok ys ∧
      parse ("struct A; # let" ++ "\n" ++ "let b = A;") = .ok (xs ++ ys) ∧
      parse ("struct A; # let" ++ "\n" ++ "let b = ;") =
        .error ⟨⟨2, 9⟩, .expected "an expression" (some (.symbol .semicolon))⟩ ∧
      ∀ b : ScopeBuilder, b.addSource ("let a = 1;" ++ "let b = A;") =
        b.addSources ["let a = 1;", "let b = A;"] := by
  let xs := (parse "struct A; # let").toOption.getD []
  let ys := (parse "let b = A;").toOption.getD []
  let zs := (parse "let a = 1;").toOption.getD []
  have hxs : parse "struct A; # let" = .ok xs := eq_ok_of_isOk (by decide +kernel) _
  have hys : parse "let b = A;" = .ok ys := eq_ok_of_isOk (by decide +kernel) _
  have hzs : parse "let a = 1;" = .ok zs := eq_ok_of_isOk (by decide +kernel) _
  have hbroken : parse "let b = ;" =
      .error ⟨⟨1, 9⟩, .expected "an expression" (some (.symbol .semicolon))⟩ := by
    have hfault : (match parse "let b = ;" with | .error e => some e | .ok _ => none) =
        some ⟨⟨1, 9⟩, .expected "an expression" (some (.symbol .semicolon))⟩ := by decide +kernel
    cases hparse : parse "let b = ;" with
    | ok ds =>
      rw [hparse] at hfault
      cases hfault
    | error e =>
      rw [hparse] at hfault
      exact congrArg Except.error (Option.some.inj hfault)
  have hsplits : SplitsInto ("let a = 1;" ++ "let b = A;") ["let a = 1;", "let b = A;"] :=
    .between hzs (Source.not_endsInComment_of_not_mem (by decide) (by decide)) (.whole hys)
  obtain ⟨hjoined, hfails, hadds⟩ := sources_compose
  exact ⟨xs, ys, hxs, hys, hjoined _ _ _ _ hxs hys, hfails _ _ _ _ hxs hbroken, hadds _ _ hsplits⟩

end ScopeBuilder
end TypedFlow
