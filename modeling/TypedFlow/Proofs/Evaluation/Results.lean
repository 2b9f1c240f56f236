import TypedFlow.Proofs.Effects
import TypedFlow.Proofs.Scope.Trails
import TypedFlow.Proofs.Ty.Disjointness
import TypedFlow.Evaluation.Basic

/-!
# What evaluation returns

Evaluation makes types from literals and declarations and puts them together by operations. What
these keep of the layers of a type holds of everything it returns, as long as it holds of the types
that it starts from: those that are bound and those that the layers of the scope keep. So where the
structs that are declared list each field once, all types are orderly.
-/
namespace TypedFlow
open TypedFlow.Ty (Everywhere Kept OrderlyLayer everywhere_of_parts_nil)

/-- A value is as said. -/
def Yields {α : Type} (P : α → Prop) (result : Except EvaluationError α) : Prop :=
  ∀ a, result = .ok a → P a

section Yields
variable {α β : Type} {P : α → Prop} {Q : β → Prop} {e : EvaluationError}

theorem yields_ok {a : α} (h : P a) : Yields P (.ok a) := by
  rintro _ ⟨⟩
  exact h

theorem yields_error : Yields P (.error e) := by
  rintro _ ⟨⟩

theorem Yields.bind {result : Except EvaluationError α} {f : α → Except EvaluationError β}
    (h : Yields P result) (hf : ∀ a, P a → Yields Q (f a)) : Yields Q (result >>= f) := by
  cases result with
  | ok a => exact hf a (h a rfl)
  | error e => exact yields_error

/-- Where the value that is bound does not matter. -/
theorem yields_bind {result : Except EvaluationError α} {f : α → Except EvaluationError β}
    (hf : ∀ a, Yields Q (f a)) : Yields Q (result >>= f) :=
  Yields.bind (P := fun _ => True) (fun _ _ => trivial) fun a _ => hf a

theorem yields_mapM {f : α → Except EvaluationError β} {items : List α}
    (h : ∀ a ∈ items, Yields Q (f a)) : Yields (∀ b ∈ ·, Q b) (items.mapM f) := by
  induction items with
  | nil => exact yields_ok (by simp)
  | cons a items ih =>
    rw [List.forall_mem_cons] at h
    rw [List.mapM_cons]
    exact h.1.bind fun _ hb => (ih h.2).bind fun _ hbs =>
      yields_ok (List.forall_mem_cons.2 ⟨hb, hbs⟩)

end Yields

namespace Entries
variable {α : Type} {name : String} {value : α}

theorem names_replace (name : String) (value : α) (entries : Entries α) :
    names (replace name value entries) = names entries := by
  induction entries with
  | nil => rfl
  | cons entry entries ih =>
    obtain ⟨other, v⟩ := entry
    simp only [replace]
    split
    · rfl
    · rw [names_cons, names_cons, ih]

theorem mem_replace {entries : Entries α} {entry : String × α}
    (h : entry ∈ replace name value entries) : entry.2 = value ∨ entry ∈ entries := by
  induction entries with
  | nil => cases h
  | cons first entries ih =>
    obtain ⟨other, v⟩ := first
    simp only [replace] at h
    split at h
    · exact (List.mem_cons.1 h).imp (congrArg Prod.snd) (List.mem_cons_of_mem _)
    · rcases List.mem_cons.1 h with rfl | h
      · simp
      · exact (ih h).imp_right (List.mem_cons_of_mem _)

end Entries

/-- What the types of literals and declarations meet and all operations keep. -/
structure Evaluated (C : Ty → Prop) : Prop where
  kept : Kept C NumericSet.Normalized
  declaredStruct : ∀ {name fields}, (Entries.names fields).Nodup → C (.struct name fields)
  declaredEnum : ∀ {name variants}, Entries.Ascending variants → variants ≠ [] →
    C (.enum name variants)

theorem evaluated_orderlyLayer : Evaluated OrderlyLayer where
  kept := Ty.kept_orderlyLayer
  declaredStruct hfields := hfields
  declaredEnum hvariants _ := hvariants

namespace Ty
variable {C : Ty → Prop} {name variant : String} {t : Ty}

/-- The condition holds everywhere in the payload types that are listed. -/
def InPayloads (C : Ty → Prop) (variants : List (String × Option Ty)) : Prop :=
  ∀ entry ∈ variants, ∀ t, entry.2 = some t → Everywhere C t

end Ty

namespace Evaluated
open TypedFlow.Ty
variable {C : Ty → Prop} (hc : Evaluated C) {name variant : String} {t : Ty}
include hc

theorem any : Everywhere C .any := everywhere_of_parts_nil rfl hc.kept.any

theorem never : Everywhere C .never := everywhere_of_parts_nil rfl hc.kept.never

theorem number : Everywhere C .number := everywhere_of_parts_nil rfl hc.kept.number

theorem string : Everywhere C .string := everywhere_of_parts_nil rfl hc.kept.string

theorem stringLiteral (content : String) : Everywhere C (.stringLiteral content) :=
  everywhere_of_parts_nil rfl (hc.kept.stringLiteral content)

theorem literal (value : Number) : Everywhere C (Ty.literal value) := by
  unfold Ty.literal
  split
  · exact hc.never
  · exact hc.kept.ofNumericSet (NumericSet.normalized_ofParts _ _)

theorem interval (lower upper : Bound) : Everywhere C (Ty.interval lower upper) :=
  hc.kept.ofNumericSet (NumericSet.normalized_ofParts _ _)

theorem int : Everywhere C Ty.int := hc.kept.ofNumericSet (NumericSet.normalized_ofParts _ _)

theorem enumOf {variants : List (String × Option Ty)} (hne : variants ≠ [])
    (h : InPayloads C variants) : Everywhere C (Ty.enumOf name variants) :=
  everywhere_enum_iff.2 ⟨hc.declaredEnum (Entries.ascending_ofList variants)
    (Entries.ofList_ne_nil hne), fun entry hentry => h entry (Entries.mem_of_mem_ofList hentry)⟩

theorem single {payload : Option Ty} (h : ∀ t, payload = some t → Everywhere C t) :
    Everywhere C (.enum name [(variant, payload)]) :=
  everywhere_enum_iff.2 ⟨hc.declaredEnum (List.pairwise_singleton _ _) (List.cons_ne_nil _ _),
    by simpa using h⟩

theorem bool : Everywhere C Ty.bool :=
  hc.enumOf (List.cons_ne_nil _ _) (by simp [InPayloads])

theorem boolLiteral (value : Bool) : Everywhere C (Ty.boolLiteral value) := hc.single (by simp)

theorem struct_replace {fields : List (String × Ty)} (field : String)
    (h : Everywhere C (.struct name fields)) (ht : Everywhere C t) :
    Everywhere C (.struct name (Entries.replace field t fields)) := by
  refine everywhere_struct_iff.2
    ⟨hc.kept.struct h.here (Entries.names_replace field t fields), fun e he => ?_⟩
  rcases Entries.mem_replace he with heq | he
  · exact heq ▸ ht
  · exact (everywhere_struct_iff.1 h).2 e he

end Evaluated

namespace Builtin
open TypedFlow.Ty
variable {C : Ty → Prop} (hc : Evaluated C)
include hc

theorem yields_arithmetic (operation : String) {op : NumericSet → NumericSet → NumericSet}
    (hop : ∀ x y, (op x y).Normalized) (a b : Ty) :
    Yields (Everywhere C) (arithmetic operation op a b) := by
  unfold arithmetic
  split
  · exact yields_ok hc.never
  · split
    · exact yields_ok hc.any
    · exact yields_bind fun x => yields_bind fun y => yields_ok (hc.kept.ofNumericSet (hop x y))

theorem yields_unaryArithmetic (operation : String) {op : NumericSet → NumericSet}
    (hop : ∀ x, (op x).Normalized) (a : Ty) :
    Yields (Everywhere C) (unaryArithmetic operation op a) := by
  unfold unaryArithmetic
  split
  · exact yields_ok hc.never
  · split
    · exact yields_ok hc.any
    · exact yields_bind fun x => yields_ok (hc.kept.ofNumericSet (hop x))

theorem everywhere_ofTruthValues (values : List Bool) : Everywhere C (ofTruthValues values) := by
  unfold ofTruthValues
  split
  · exact hc.bool
  · exact hc.boolLiteral true
  · exact hc.boolLiteral false
  · exact hc.never

theorem yields_logic (operation : String) (op : Bool → Bool → Bool) (a b : Ty) :
    Yields (Everywhere C) (logic operation op a b) :=
  yields_bind fun _ => yields_bind fun _ => yields_ok (everywhere_ofTruthValues hc _)

theorem yields_negation (operation : String) (a : Ty) :
    Yields (Everywhere C) (negation operation a) :=
  yields_bind fun _ => yields_ok (everywhere_ofTruthValues hc _)

theorem yields_integersOf (a : Ty) : Yields (Everywhere C) (integersOf a) := by
  unfold integersOf
  split
  · exact yields_ok hc.int
  · exact yields_ok hc.never
  · have hset : ∀ x : NumericSet, (x.intersect .allIntegers).Normalized :=
      fun _ => NumericSet.normalized_ofParts _ _
    exact yields_bind fun x => yields_ok (hc.kept.ofNumericSet (hset x))

theorem yields_concatenation (a b : Ty) : Yields (Everywhere C) (concatenation a b) := by
  unfold concatenation
  split
  · exact yields_ok hc.never
  · refine yields_bind fun _ => yields_bind fun _ => ?_
    split
    · exact yields_ok (hc.stringLiteral _)
    · exact yields_ok hc.string

theorem yields_result (f : Builtin) (args : List Ty) : Yields (Everywhere C) (f.result args) := by
  have hbinary : ∀ op x y, (NumericSet.combine op x y).Normalized :=
    fun _ _ _ => NumericSet.normalized_ofParts _ _
  have hunary : ∀ op x, (NumericSet.map op x).Normalized :=
    fun _ _ => NumericSet.normalized_ofParts _ _
  unfold result
  split
  case h_1 => exact yields_ok hc.any
  case h_2 => exact yields_ok hc.never
  case h_3 => exact yields_ok hc.number
  case h_4 => exact yields_ok hc.string
  case h_5 => exact yields_ok hc.int
  case h_6 => exact yields_integersOf hc _
  case h_7 | h_8 | h_9 | h_12 | h_13 => exact yields_arithmetic hc _ (fun _ _ => hbinary _ _ _) _ _
  case h_10 | h_11 => exact yields_unaryArithmetic hc _ (hunary _) _
  case h_14 => exact yields_negation hc _ _
  case h_15 | h_16 => exact yields_logic hc _ _ _ _
  case h_17 => exact yields_concatenation hc _ _
  case h_18 => exact yields_ok hc.never

/-- The condition holds of what a built-in function returns, whatever its arguments are. -/
theorem yields_apply (f : Builtin) (args : List Ty) : Yields (Everywhere C) (f.apply args) := by
  unfold apply
  split
  · exact yields_result hc f args
  · exact yields_error

end Builtin

/-- A struct that is declared lists each field once. -/
def Definition.FieldsOnce : Definition → Prop
  | .declared (.struct _ fields) => (Entries.names fields).Nodup
  | _ => True

/-- An enum that is declared lists a variant. -/
def Definition.Listed : Definition → Prop
  | .declared d => d.Listed
  | .builtin _ => True

namespace Scope

/-- The structs of all layers list each field once. -/
def FieldsOnce (scope : Scope) : Prop :=
  ∀ layer ∈ scope, ∀ entry ∈ layer.definitions, entry.2.FieldsOnce

/-- The enums of all layers list a variant. -/
def Listed (scope : Scope) : Prop := ∀ layer ∈ scope, ∀ entry ∈ layer.definitions, entry.2.Listed

/-- What evaluation in a scope starts from. -/
structure Supplies (C : Ty → Prop) (scope : Scope) : Prop where
  fieldsOnce : scope.FieldsOnce
  listed : scope.Listed
  kept : ∀ layer ∈ scope, ∀ entry ∈ layer.resolved, Everywhere C entry.2

variable {C : Ty → Prop} {scope holder : Scope} {name : String} {d : Definition}

theorem Supplies.lookup (h : scope.Supplies C) (hl : scope.lookup name = some (d, holder)) :
    holder.Supplies C ∧ d.FieldsOnce ∧ d.Listed := by
  obtain ⟨hsuffix, hlocal⟩ := of_lookup hl
  have hholder : holder.Supplies C :=
    ⟨fun layer hlayer => h.fieldsOnce layer (hsuffix.subset hlayer),
      fun layer hlayer => h.listed layer (hsuffix.subset hlayer),
      fun layer hlayer => h.kept layer (hsuffix.subset hlayer)⟩
  refine ⟨hholder, ?_⟩
  cases holder with
  | nil => cases hlocal
  | cons layer outer =>
    have hmem := Entries.mem_of_get? hlocal
    exact ⟨hholder.fieldsOnce layer List.mem_cons_self _ hmem,
      hholder.listed layer List.mem_cons_self _ hmem⟩

theorem Supplies.resolved (h : scope.Supplies C) {t : Ty} (ht : scope.resolved? name = some t) :
    Everywhere C t := by
  cases scope with
  | nil => cases ht
  | cons layer outer => exact h.kept layer List.mem_cons_self _ (Entries.mem_of_get? ht)

end Scope

namespace Evaluation

/-- Whatever is open in the frame, a value is as said. -/
def Returns {α : Type} (x : Evaluation α) (P : α → Prop) : Prop :=
  ∀ frame, Yields P (x.run.run frame).1

section Rules
variable {α β : Type} {P : α → Prop} {Q : β → Prop} {x : Evaluation α}

theorem returns_pure {a : α} (h : P a) : Returns (pure a) P := fun _ => yields_ok h

theorem returns_throw {e : EvaluationError} : Returns (throw e : Evaluation α) P :=
  fun _ => yields_error

theorem returns_lift {result : Except EvaluationError α} (h : Yields P result) :
    Returns (lift result) P := fun _ => h

theorem Returns.bind {f : α → Evaluation β} (h : Returns x P) (hf : ∀ a, P a → Returns (f a) Q) :
    Returns (x >>= f) Q := by
  intro frame
  cases hrun : (x.run.run frame).1 with
  | ok a =>
    rw [run_bind_ok hrun]
    exact hf a (h frame a hrun) _
  | error e =>
    rw [run_bind_error hrun]
    exact yields_error

theorem returns_unless {c : Prop} [Decidable c] {e : EvaluationError} {rest : Unit → Evaluation α}
    (h : Returns (rest ()) P) : Returns (if c then throw e >>= rest else rest ()) P := by
  split
  · exact fun _ => yields_error
  · exact h

theorem returns_between (opening closing : Frame → Frame) (h : Returns x P) :
    Returns (between opening closing x) P := fun frame => h (opening frame)

theorem returns_get : Returns (get : Evaluation Frame) fun _ => True := fun _ _ _ => trivial

theorem returns_withinCall (limit : Nat) (function : String) (h : Returns x P) :
    Returns (withinCall limit function x) P :=
  returns_get.bind fun _ _ => returns_unless (returns_between _ _ h)

theorem returns_whileResolving (name : String) (h : Returns x P) :
    Returns (whileResolving name x) P :=
  returns_get.bind fun _ _ => returns_unless (returns_between _ _ h)

theorem returns_mapM {f : α → Evaluation β} {R : α → β → Prop} {items : List α}
    (h : ∀ a ∈ items, Returns (f a) (R a)) :
    Returns (items.mapM f) (List.Forall₂ R items) := by
  induction items with
  | nil => exact returns_pure .nil
  | cons a items ih =>
    rw [List.forall_mem_cons] at h
    rw [List.mapM_cons]
    exact h.1.bind fun _ hb => (ih h.2).bind fun _ hbs => returns_pure (.cons hb hbs)

end Rules
/-- What related lists say of the second alone. -/
theorem of_forall₂ {α β : Type} {Q : β → Prop} {R : α → β → Prop} {items : List α}
    {results : List β} (h : List.Forall₂ (fun a b => Q b ∧ R a b) items results) :
    ∀ b ∈ results, Q b :=
  ((List.forall₂_and_left _ _).1 h.flip).1

section Operations
variable {C : Ty → Prop} (hc : Evaluated C)
include hc

theorem yields_fieldType {target : Ty} (h : Everywhere C target) (field : String) :
    Yields (Everywhere C) (fieldType target field) := by
  have hmember : ∀ t ∈ target.members, Yields (Everywhere C) (memberField target field t) := by
    intro t ht
    have ht := h.of_mem_members ht
    unfold memberField
    split
    · rename_i fields _
      dsimp only
      cases hget : Entries.get? fields field with
      | none => exact yields_error
      | some value =>
        exact yields_ok ((Ty.everywhere_struct_iff.1 ht).2 _ (Entries.mem_of_get? hget))
    · exact yields_error
  unfold fieldType
  split
  · exact yields_ok hc.any
  · exact yields_ok hc.never
  · exact (yields_mapM hmember).bind fun types htypes =>
      yields_ok (Ty.everywhere_unionAll hc.kept htypes)

theorem yields_binaryType (op : BinaryOp) {a b : Ty} (ha : Everywhere C a) (hb : Everywhere C b) :
    Yields (Everywhere C) (binaryType op a b) := by
  have hset : ∀ op x y, (NumericSet.combine op x y).Normalized :=
    fun _ _ _ => NumericSet.normalized_ofParts _ _
  cases op with
  | union => exact yields_ok (Ty.everywhere_unionAll hc.kept (by simp [ha, hb]))
  | intersection => exact yields_ok (Ty.everywhere_intersect hc.kept ha hb)
  | add => exact Builtin.yields_arithmetic hc _ (fun _ _ => hset _ _ _) a b
  | subtract => exact Builtin.yields_arithmetic hc _ (fun _ _ => hset _ _ _) a b
  | multiply => exact Builtin.yields_arithmetic hc _ (fun _ _ => hset _ _ _) a b

theorem yields_variantCall (path owner member : String) {payload : Option Ty} {args : List Ty}
    (hp : ∀ t, payload = some t → Everywhere C t) (hargs : ∀ t ∈ args, Everywhere C t) :
    Yields (Everywhere C) (variantCall path owner member payload args) := by
  unfold variantCall
  split
  · exact yields_error
  · rename_i declared arg
    split
    · exact yields_ok hc.never
    · dsimp only
      split
      · exact yields_error
      · have hnarrowed := Ty.everywhere_intersect hc.kept (hargs arg (by simp)) (hp declared rfl)
        exact yields_ok (hc.single (by simpa using hnarrowed))
  · exact yields_error

end Operations

section Binding
variable {C : Ty → Prop}

/-- The condition holds everywhere in the types that are bound. -/
def BindsAll (C : Ty → Prop) (bindings : Bindings) : Prop :=
  ∀ entry ∈ bindings, Everywhere C entry.2

theorem bindsAll_nil : BindsAll C [] := fun _ h => absurd h List.not_mem_nil

theorem BindsAll.insert {bindings : Bindings} (h : BindsAll C bindings) {t : Ty}
    (ht : Everywhere C t) (name : String) : BindsAll C (Entries.insert name t bindings) := by
  intro entry hentry
  rcases Entries.mem_insert hentry with rfl | hentry
  · exact ht
  · exact h entry hentry

theorem BindsAll.bindArm {bindings : Bindings} (h : BindsAll C bindings) {t : Ty}
    (ht : Everywhere C t) (binding : Option String) : BindsAll C (bindArm binding t bindings) := by
  cases binding with
  | none => exact h
  | some name => exact h.insert ht name

end Binding

/-- The evaluator returns types that meet the condition, if it starts from such. -/
def Maintains (C : Ty → Prop) (evaluator : Evaluator) : Prop :=
  ∀ ⦃scope : Scope⦄ ⦃bindings : Bindings⦄ (e : Expr), scope.Supplies C → BindsAll C bindings →
    Returns (evaluator scope bindings e) (Everywhere C)

section Opening
variable {C : Ty → Prop} (hc : Evaluated C) {limit : Nat} {inBody : Evaluator}
  (hbody : Maintains C inBody) {holder scope : Scope} {function : String} {args : List Ty}
include hc hbody

theorem returns_bindArguments (hs : holder.Supplies C) (params : List (String × Expr))
    (hargs : ∀ t ∈ args, Everywhere C t) {locals : Bindings} (hl : BindsAll C locals) :
    Returns (bindArguments inBody holder function params args locals) (BindsAll C) := by
  induction params generalizing args locals with
  | nil => exact returns_pure hl
  | cons param params ih =>
    cases args with
    | nil => exact returns_pure hl
    | cons arg args =>
      rw [List.forall_mem_cons] at hargs
      refine (hbody param.2 hs bindsAll_nil).bind fun declared hdeclared => ?_
      refine returns_unless (ih hargs.2 (hl.insert ?_ _))
      exact Ty.everywhere_intersect hc.kept hargs.1 hdeclared

theorem returns_callFunction (hs : holder.Supplies C) (params : List (String × Expr)) (body : Expr)
    (hargs : ∀ t ∈ args, Everywhere C t) :
    Returns (callFunction limit inBody holder function params body args) (Everywhere C) := by
  refine returns_unless (returns_withinCall _ _ ?_)
  exact (returns_bindArguments hc hbody hs params hargs bindsAll_nil).bind fun _ hlocals =>
    hbody body hs hlocals

omit hc hbody in
theorem returns_resolvedOr (hs : holder.Supplies C) {name : String} {resolution : Evaluation Ty}
    (h : Returns resolution (Everywhere C)) :
    Returns (resolvedOr holder name resolution) (Everywhere C) := by
  unfold resolvedOr
  split
  · rename_i t ht
    exact returns_pure (hs.resolved ht)
  · exact returns_whileResolving name h

theorem returns_openDefinition (hs : holder.Supplies C) {d : Definition} (hd : d.FieldsOnce)
    (hlisted : d.Listed) : Returns (openDefinition limit inBody holder d) (Everywhere C) := by
  cases d with
  | builtin f => exact returns_lift (Builtin.yields_apply hc f [])
  | declared d =>
    cases d with
    | struct name fields =>
      refine returns_resolvedOr hs ?_
      refine (returns_mapM (R := fun f slot => Everywhere C slot.2 ∧ f.1 = slot.1)
        fun f _ => ?_).bind fun slots hslots => returns_pure ?_
      · exact (hbody f.2 hs bindsAll_nil).bind fun t ht => returns_pure ⟨ht, rfl⟩
      · have hnames := Entries.names_eq_of_forall₂ (hslots.imp fun _ _ h => h.2)
        have hnodup : (Entries.names slots).Nodup := hnames ▸ hd
        exact Ty.everywhere_struct_iff.2 ⟨hc.declaredStruct hnodup, of_forall₂ hslots⟩
    | enum name variants =>
      refine returns_resolvedOr hs ?_
      refine (returns_mapM (R := fun v found => (∀ t, found.2 = some t → Everywhere C t) ∧
        v.1 = found.1) fun v _ => ?_).bind fun found hfound => returns_pure ?_
      · obtain ⟨variant, payload⟩ := v
        cases payload with
        | none => exact returns_pure ⟨by simp, rfl⟩
        | some e =>
          exact (hbody e hs bindsAll_nil).bind fun t ht => returns_pure ⟨by simpa using ht, rfl⟩
      · have hne : found ≠ [] := by
          rintro rfl
          exact hlisted (List.forall₂_nil_right_iff.1 hfound)
        exact hc.enumOf hne (of_forall₂ hfound)
    | function name params body => exact returns_callFunction hc hbody hs params body (by simp)
    | «alias» name value => exact returns_resolvedOr hs (hbody value hs bindsAll_nil)

theorem returns_nameType (hs : scope.Supplies C) {bindings : Bindings} (hb : BindsAll C bindings)
    (name : String) : Returns (nameType limit inBody scope bindings name) (Everywhere C) := by
  cases hget : bindings.get? name with
  | some t =>
    simp only [nameType, hget]
    exact returns_pure (hb _ (Entries.mem_of_get? hget))
  | none =>
    simp only [nameType, hget, Scope.resolve]
    cases hl : scope.lookup name with
    | none => exact fun _ => yields_error
    | some found =>
      obtain ⟨d, holder⟩ := found
      obtain ⟨hholder, hd, hlisted⟩ := hs.lookup hl
      have hresolve : Returns (lift (.ok (d, holder))) (· = (d, holder)) :=
        returns_lift (yields_ok rfl)
      exact hresolve.bind fun _ heq => heq ▸ returns_openDefinition hc hbody hholder hd hlisted

theorem returns_variantsOf (hs : scope.Supplies C) (owner path : String) :
    Returns (variantsOf limit inBody scope owner path) (Ty.InPayloads C) := by
  unfold variantsOf
  split
  · rename_i hl
    obtain ⟨hholder, hd, hlisted⟩ := hs.lookup hl
    refine (returns_openDefinition hc hbody hholder hd hlisted).bind fun t ht => ?_
    split
    · exact returns_pure (Ty.everywhere_enum_iff.1 ht).2
    · exact returns_throw
  · exact returns_throw

theorem returns_pathType (hs : scope.Supplies C) (owner member : String) :
    Returns (pathType limit inBody scope owner member) (Everywhere C) := by
  unfold pathType
  dsimp only
  split
  · rename_i hl
    obtain ⟨hholder, hd, hlisted⟩ := hs.lookup hl
    exact returns_openDefinition hc hbody hholder hd hlisted
  · refine (returns_variantsOf hc hbody hs owner _).bind fun variants hvariants => ?_
    split
    · rename_i payload hget
      exact returns_pure (hc.single (hvariants _ (Entries.mem_of_get? hget)))
    · exact returns_throw

theorem returns_callType (hs : scope.Supplies C) (hargs : ∀ t ∈ args, Everywhere C t) :
    Returns (callType limit inBody scope function args) (Everywhere C) := by
  unfold callType
  split
  · rename_i hl
    exact returns_callFunction hc hbody (hs.lookup hl).1 _ _ hargs
  · exact returns_lift (Builtin.yields_apply hc _ args)
  · rename_i hl
    obtain ⟨hholder, hd, hlisted⟩ := hs.lookup hl
    exact (returns_openDefinition hc hbody hholder hd hlisted).bind fun _ _ => returns_throw
  · split
    · exact returns_throw
    · refine (returns_variantsOf hc hbody hs _ _).bind fun variants hvariants => ?_
      split
      · rename_i payload hget
        exact returns_lift (yields_variantCall hc _ _ _
          (hvariants _ (Entries.mem_of_get? hget)) hargs)
      · exact returns_throw

end Opening

section Expressions
variable {C : Ty → Prop} {limit : Nat} {inBody : Evaluator} {scope : Scope}

mutual

theorem returns_evaluateExpr (hc : Evaluated C) (hbody : Maintains C inBody) (hs : scope.Supplies C)
    {bindings : Bindings} (hb : BindsAll C bindings) : (e : Expr) →
    Returns (evaluateExpr limit inBody scope bindings e) (Everywhere C)
  | .number value => returns_pure (hc.literal value)
  | .string _ => returns_pure (hc.stringLiteral _)
  | .range _ => returns_pure (hc.interval _ _)
  | .name n => returns_nameType hc hbody hs hb n
  | .path owner member => returns_pathType hc hbody hs owner member
  | .field target n =>
    (returns_evaluateExpr hc hbody hs hb target).bind fun _ ht =>
      returns_lift (yields_fieldType hc ht n)
  | .call _ args =>
    (returns_evaluateAll hc hbody hs hb args).bind fun _ hargs => returns_callType hc hbody hs hargs
  | .record n fields => by
    refine (returns_nameType hc hbody hs bindsAll_nil n).bind fun t ht => ?_
    split
    · exact (returns_refineFields hc hbody hs hb n _ fields ht).bind fun _ hslots =>
        returns_pure hslots
    · exact returns_throw
  | .binary op left right =>
    (returns_evaluateExpr hc hbody hs hb left).bind fun _ ha =>
      (returns_evaluateExpr hc hbody hs hb right).bind fun _ hb' =>
        returns_lift (yields_binaryType hc op ha hb')
  | .negate operand =>
    (returns_evaluateExpr hc hbody hs hb operand).bind fun t _ =>
      returns_lift (Builtin.yields_unaryArithmetic hc _
        (fun _ => NumericSet.normalized_ofParts _ _) t)
  | .select scrutinee arms => by
    refine (returns_evaluateExpr hc hbody hs hb scrutinee).bind fun t ht => ?_
    split
    · exact returns_pure hc.never
    · exact returns_evaluateArms hc hbody hs hb ht arms

theorem returns_evaluateAll (hc : Evaluated C) (hbody : Maintains C inBody) (hs : scope.Supplies C)
    {bindings : Bindings} (hb : BindsAll C bindings) : (exprs : List Expr) →
    Returns (evaluateAll limit inBody scope bindings exprs) (∀ t ∈ ·, Everywhere C t)
  | [] => returns_pure (by simp)
  | e :: exprs =>
    (returns_evaluateExpr hc hbody hs hb e).bind fun _ ht =>
      (returns_evaluateAll hc hbody hs hb exprs).bind fun _ htypes =>
        returns_pure (List.forall_mem_cons.2 ⟨ht, htypes⟩)

/-- Each field narrows its slot, so that a struct stays one with the same fields. -/
theorem returns_refineFields (hc : Evaluated C) (hbody : Maintains C inBody) (hs : scope.Supplies C)
    {bindings : Bindings} (hb : BindsAll C bindings) (record : String) (declared : Ty)
    {name : String} {slots : List (String × Ty)} : (fields : List (String × Expr)) →
    Everywhere C (.struct name slots) →
    Returns (refineFields limit inBody scope bindings record declared slots fields)
      fun slots => Everywhere C (.struct name slots)
  | [], hslots => returns_pure hslots
  | (field, e) :: fields, hslots => by
    refine (returns_evaluateExpr hc hbody hs hb e).bind fun value hvalue => ?_
    split
    · exact returns_throw
    · rename_i slot hget
      have hslot := (Ty.everywhere_struct_iff.1 hslots).2 _ (Entries.mem_of_get? hget)
      have hrefined := hc.struct_replace field hslots (Ty.everywhere_intersect hc.kept hslot hvalue)
      exact returns_unless (returns_refineFields hc hbody hs hb record declared fields hrefined)

theorem returns_evaluateArms (hc : Evaluated C) (hbody : Maintains C inBody) (hs : scope.Supplies C)
    {bindings : Bindings} (hb : BindsAll C bindings) {scrutinee : Ty}
    (ht : Everywhere C scrutinee) : (arms : List (MatchArm Expr)) →
    Returns (evaluateArms limit inBody scope bindings scrutinee arms) (Everywhere C)
  | [] => returns_throw
  | ⟨none, binding, body⟩ :: _ => returns_evaluateExpr hc hbody hs (hb.bindArm ht binding) body
  | ⟨some pattern, binding, body⟩ :: arms => by
    refine (returns_evaluateExpr hc hbody hs hb pattern).bind fun t htype => ?_
    dsimp only
    split
    · exact returns_evaluateArms hc hbody hs hb ht arms
    · have hnarrowed := Ty.everywhere_intersect hc.kept ht htype
      exact returns_evaluateExpr hc hbody hs (hb.bindArm hnarrowed binding) body

end

end Expressions

theorem maintains_evaluateAt {C : Ty → Prop} (hc : Evaluated C) (limit levels : Nat) :
    Maintains C (evaluateAt limit levels) := by
  induction levels with
  | zero =>
    exact fun _ _ e hs hb => returns_evaluateExpr hc (fun _ _ _ _ _ => returns_throw) hs hb e
  | succ levels ih => exact fun _ _ e hs hb => returns_evaluateExpr hc ih hs hb e

end Evaluation

/-- What is kept everywhere holds everywhere in what evaluation returns. -/
theorem everywhere_of_evaluate {C : Ty → Prop} (hc : Evaluated C) {scope : Scope}
    (hs : scope.Supplies C) {limit : Nat} {bindings : Bindings}
    (hb : Evaluation.BindsAll C bindings) {e : Expr} {t : Ty}
    (h : evaluate scope limit bindings e = .ok t) : Everywhere C t :=
  Evaluation.maintains_evaluateAt hc limit _ e hs hb .empty t h

end TypedFlow
