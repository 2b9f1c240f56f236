import TypedFlow.Proofs.Pipeline.Runs
import TypedFlow.Proofs.Scope.Disjointness
import TypedFlow.Proofs.Ty.Narrowing

/-!
# Narrowed inputs

Edges are admitted one at a time, each by its own type, while an input is narrowed by the union of
what all its edges carry. Over a scope that was built and whose structs list each field once, the
types of all sockets are orderly and without empty enums, whatever their expressions and the data of
their nodes are. As long as the ends of intervals stay within the limit, such a union overlaps what
the input declares when its edges fit, so that narrowing leaves something, and what it leaves is a
subtype of what the input declares.
-/
namespace TypedFlow
open TypedFlow.Ty (Everywhere everywhere_struct_iff OrderlyLayer ListedLayer FittedLayer)
open TypedFlow.Evaluation (BindsAll bindsAll_nil)

namespace Json

mutual

/-- No object lists a member twice, as far as types of data look. -/
def MembersOnce : Json → Prop
  | .object members => (Entries.names members).Nodup ∧ EachOnce members
  | _ => True

def EachOnce : List (String × Json) → Prop
  | [] => True
  | (_, j) :: members => MembersOnce j ∧ EachOnce members

end

theorem eachOnce_iff {members : List (String × Json)} :
    EachOnce members ↔ ∀ m ∈ members, m.2.MembersOnce := by
  induction members with
  | nil => simp [EachOnce]
  | cons m members ih => rw [EachOnce, ih, List.forall_mem_cons]

mutual

/-- A value with its objects as dictionaries. -/
theorem membersOnce_of_normal? : (j : Json) → ∀ {k}, j.normal? = some k → k.MembersOnce
  | .object members, _, h => by
    obtain ⟨found, hfound, rfl⟩ := Option.map_eq_some_iff.1 h
    have honce := eachOnce_iff.1 (eachOnce_of_normal? members hfound)
    exact ⟨(Entries.ascending_ofList found).nodup,
      eachOnce_iff.2 fun m hm => honce m (Entries.mem_of_mem_ofList hm)⟩
  | .array items, _, h => by
    obtain ⟨found, -, rfl⟩ := Option.map_eq_some_iff.1 h
    trivial
  | .null, _, h | .bool _, _, h | .integer _, _, h | .float _, _, h | .string _, _, h => by
    cases h
    trivial

theorem eachOnce_of_normal? : (members : List (String × Json)) →
    ∀ {found}, normalMembers? members = some found → EachOnce found
  | [], _, h => by
    cases h
    trivial
  | (name, j) :: members, _, h => by
    obtain ⟨k, hk, h⟩ := Option.bind_eq_some_iff.1 h
    obtain ⟨rest, hrest, h⟩ := Option.bind_eq_some_iff.1 h
    cases h
    exact ⟨membersOnce_of_normal? j hk, eachOnce_of_normal? members hrest⟩

end

/-- The data of nodes that are read from a definition. -/
theorem membersOnce_of_dictionary? {levels : Nat} {j : Json} {members : List (String × Json)}
    (h : j.dictionary? levels = some members) : (Json.object members).MembersOnce := by
  unfold dictionary? at h
  split at h
  · rename_i hnormal
    split at h
    · cases h
      exact membersOnce_of_normal? j hnormal
    · cases h
  · cases h

end Json

/-- Orderly and without empty enums. -/
def Ty.NeatLayer (t : Ty) : Prop := OrderlyLayer t ∧ ListedLayer t

theorem evaluated_neatLayer : Evaluated Ty.NeatLayer where
  kept := by
    have hsets : (fun set => NumericSet.Normalized set ∧ True) = NumericSet.Normalized :=
      funext fun set => propext ⟨And.left, fun h => ⟨h, trivial⟩⟩
    exact hsets ▸ Ty.kept_orderlyLayer.and Ty.kept_listedLayer
  declaredStruct hfields := ⟨hfields, trivial⟩
  declaredEnum hvariants hne := ⟨hvariants, hne⟩

theorem Ty.measured_of_neat {t : Ty} (h : Everywhere NeatLayer t) (hf : Everywhere FittedLayer t) :
    t.Measured :=
  measured_iff.2 ⟨(everywhere_and_iff.1 h).1, (everywhere_and_iff.1 h).2, hf⟩

section Data
variable {C : Ty → Prop}

theorem names_fieldTypes (members : List (String × Json)) :
    Entries.names (fieldTypes members) = Entries.names members := by
  induction members with
  | nil => rfl
  | cons entry members ih => simp [fieldTypes, ih]

mutual

theorem everywhere_valueType (hc : Evaluated C) (name : String) :
    (j : Json) → j.MembersOnce → Everywhere C (valueType name j)
  | .bool value, _ => hc.boolLiteral value
  | .integer _, _ => hc.literal _
  | .float value, _ => hc.literal value
  | .string text, _ => hc.stringLiteral text
  | .object members, h => everywhere_struct_iff.2
    ⟨hc.declaredStruct (names_fieldTypes members ▸ h.1), everywhere_fieldTypes hc members h.2⟩
  | .null, _ | .array _, _ | .unreadable, _ => hc.any

theorem everywhere_fieldTypes (hc : Evaluated C) : (members : List (String × Json)) →
    Json.EachOnce members → ∀ field ∈ fieldTypes members, Everywhere C field.2
  | [], _ => by simp [fieldTypes]
  | (name, j) :: members, h => List.forall_mem_cons.2
    ⟨everywhere_valueType hc name j h.1, everywhere_fieldTypes hc members h.2⟩

end

end Data

namespace NodeTypes
variable {C : Ty → Prop} {g : Graph}

/-- The condition holds everywhere in the types of all sockets. -/
structure All (C : Ty → Prop) (types : NodeTypes) : Prop where
  declaredInputs : ∀ t ∈ types.declaredInputs, Everywhere C t
  inputs : ∀ t ∈ types.inputs, Everywhere C t
  outputs : ∀ t ∈ types.outputs, Everywhere C t

section Condition
variable (hc : Evaluated C)
include hc

theorem everywhere_socketType (hs : g.scope.Supplies C) (node : NodeId) {bindings : Bindings}
    (hb : BindsAll C bindings) (socket : SocketRef) (declared : Option Expr) :
    Everywhere C (socketType g node bindings socket declared).1 := by
  unfold socketType
  split
  · exact hc.any
  · split
    · rename_i hrun
      exact everywhere_of_evaluate hc hs hb hrun
    · exact hc.any

theorem everywhere_narrow {declared : Ty} {connected : List Ty} (hd : Everywhere C declared)
    (h : ∀ t ∈ connected, Everywhere C t) : Everywhere C (narrow declared connected) := by
  unfold narrow
  split
  · exact hd
  · exact Ty.everywhere_intersect hc.kept (Ty.everywhere_unionAll hc.kept h) hd

theorem all_ofIncoming (hs : g.scope.Supplies C) {node : Node}
    (hdata : (Json.object node.data).MembersOnce) {incoming : List (List Ty)}
    (h : ∀ connected ∈ incoming, ∀ t ∈ connected, Everywhere C t) :
    (ofIncoming g node incoming).All C := by
  have hdata : BindsAll C [(dataBinding, dataType node.data)] :=
    List.forall_mem_singleton.2 (everywhere_valueType hc dataStruct _ hdata)
  have hdeclared : ∀ t ∈ (ofIncoming g node incoming).declaredInputs, Everywhere C t := by
    simp only [ofIncoming, List.map_map]
    exact List.forall_mem_map.2 fun _ _ => everywhere_socketType hc hs _ hdata _ _
  have hinputs : ∀ t ∈ (ofIncoming g node incoming).inputs, Everywhere C t := by
    intro t ht
    obtain ⟨i, hi, rfl⟩ := List.getElem_of_mem ht
    simp only [ofIncoming, List.getElem_zipWith]
    exact everywhere_narrow hc (hdeclared _ (List.getElem_mem _)) (h _ (List.getElem_mem _))
  have hbindings : BindsAll C ((ofIncoming g node incoming).inputs.zipIdx.foldl
      (fun b input => b.insert (inputBinding input.2) input.1)
      [(dataBinding, dataType node.data)]) := by
    refine List.foldlRecOn _ _ hdata fun b hb input hinput => ?_
    exact hb.insert (hinputs _ (List.fst_mem_of_mem_zipIdx hinput)) _
  refine ⟨hdeclared, hinputs, fun t ht => ?_⟩
  obtain ⟨result, hresult, rfl⟩ := List.mem_map.1 ht
  obtain ⟨_, -, rfl⟩ := List.mem_map.1 hresult
  exact everywhere_socketType hc hs _ hbindings _ _

theorem all_compute (hs : g.scope.Supplies C) {node : Node}
    (hdata : (Json.object node.data).MembersOnce) {flows : List (Nat × Ty)}
    (h : ∀ flow ∈ flows, Everywhere C flow.2) : (compute g node flows).All C := by
  refine all_ofIncoming hc hs hdata ?_
  simp only [distribute, List.forall_mem_map]
  exact fun _ _ flow hflow => h flow (List.mem_filter.1 hflow).1

end Condition

/-- An input is narrowed by what comes to it. -/
theorem getElem?_inputs {node : Node} {flows : List (Nat × Ty)} {i : Nat} {declared : Ty}
    (h : (compute g node flows).declaredInputs[i]? = some declared) :
    (compute g node flows).inputs[i]? =
      some (narrow declared ((flows.filter (·.1 == i)).map (·.2))) := by
  have hlt : i < node.inputs.length := by
    rw [← Graph.length_declaredInputs node flows]
    exact (List.getElem?_eq_some_iff.1 h).1
  simp only [compute, ofIncoming] at h ⊢
  rw [List.getElem?_zipWith, h]
  simp [distribute, hlt]

end NodeTypes

namespace Graph
variable {C : Ty → Prop} {g : Graph}

theorem Typed.all (hc : Evaluated C) (hs : g.scope.Supplies C)
    (hdata : ∀ node ∈ g.nodes, (Json.object node.data).MembersOnce) {id : NodeId}
    {types : NodeTypes} (h : g.Typed id types) : types.All C := by
  induction h with
  | @node id node sources hnode _ ih =>
    refine NodeTypes.all_compute hc hs (hdata node (mem_nodes_of_node? hnode).1) ?_
    refine List.forall_mem_map.2 fun e he => ?_
    unfold NodeTypes.output
    cases hsocket : (sources e.source).outputs[e.sourceSocket]? with
    | none => exact hc.any
    | some t => exact (ih e he).outputs t (List.mem_of_getElem? hsocket)

/-- The types that come to an input, computed without a cache. -/
def connectedTypes (g : Graph) (id : NodeId) (socket : Nat) : Except GraphError (List Ty) :=
  (g.connections id socket).mapM fun e => (g.outputType e.source e.sourceSocket).fresh

theorem flows_filter (sources : NodeId → NodeTypes) (id : NodeId) (socket : Nat) :
    ((g.flows sources id).filter (·.1 == socket)).map (·.2) =
      (g.connections id socket).map fun e => (sources e.source).output e.sourceSocket := by
  simp only [flows, connections, List.filter_map, List.map_map]
  rfl

section Inputs
variable (hv : g.Valid)
include hv

theorem carries_output {e : Edge} (h : e.Attached g) {types : NodeTypes}
    (htypes : g.Typed e.source types) : g.Carries e (types.output e.sourceSocket) := by
  obtain ⟨produced, found, hfound, hsocket⟩ := exists_carries hv h
  obtain rfl := hfound.unique htypes
  exact ⟨found, hfound, by rw [NodeTypes.output, hsocket]; rfl⟩

theorem Fits.overlaps {e : Edge} {produced accepted : Ty} (h : g.Fits e)
    (hc : g.Carries e produced) (ha : g.Accepts e accepted) : produced.Overlaps accepted := by
  have hfits := (fits_iff hv hc ha).1 h
  rwa [Ty.isDisjoint, ← Bool.not_eq_true, Ty.isNever_iff] at hfits

/-- What an input declares, and what each of its edges carries, determine the type of the input. -/
theorem exists_narrowed {e : CommittedEdge} (he : e ∈ g.edges) :
    ∃ (declared : Ty) (carried : CommittedEdge → Ty), g.Accepts e.toEdge declared ∧
      (∀ c ∈ g.connections e.target e.targetSocket, g.Carries c.toEdge (carried c)) ∧
      g.Settles (g.inputType e.target e.targetSocket) (.ok (.intersect
        (.unionAll ((g.connections e.target e.targetSocket).map carried)) declared)) := by
  obtain ⟨types, htypes⟩ := exists_types hv
  have hsource : ∀ c ∈ g.incoming e.target, g.Typed c.source (types c.source) := fun c hc =>
    htypes c.source (isSome_source (hv.attached c (mem_incoming.1 hc).1))
  obtain ⟨declared, ha⟩ := exists_accepts (hv.attached e he)
  obtain ⟨node, hnode, -⟩ := id ha
  have htarget : g.Typed e.target (.compute g node (g.flows types e.target)) := .node hnode hsource
  refine ⟨declared, fun c => (types c.source).output c.sourceSocket, ha, fun c hc => ?_, ?_⟩
  · have hc := (List.mem_filter.1 hc).1
    exact carries_output hv (hv.attached c (mem_incoming.1 hc).1) (hsource c hc)
  · have hinput := NodeTypes.getElem?_inputs (ha.of_typed htarget)
    have hmem : e ∈ g.connections e.target e.targetSocket :=
      List.mem_filter.2 ⟨mem_incoming.2 ⟨he, rfl⟩, by simp⟩
    have hsome : (g.connections e.target e.targetSocket).isEmpty = false :=
      List.isEmpty_eq_false_iff.2 (List.ne_nil_of_mem hmem)
    rw [flows_filter, NodeTypes.narrow, List.isEmpty_map, hsome] at hinput
    exact settles_inputType hv htarget hinput

end Inputs

section Condition
variable (hc : Evaluated C) (hs : g.scope.Supplies C)
  (hdata : ∀ node ∈ g.nodes, (Json.object node.data).MembersOnce)
include hc hs hdata

theorem Carries.everywhere {e : Edge} {produced : Ty} (h : g.Carries e produced) :
    Everywhere C produced := by
  obtain ⟨types, htypes, hsocket⟩ := h
  exact (htypes.all hc hs hdata).outputs produced (List.mem_of_getElem? hsocket)

theorem Accepts.everywhere (hv : g.Valid) {e : Edge} {accepted : Ty} (h : g.Accepts e accepted) :
    Everywhere C accepted := by
  obtain ⟨node, hnode, -⟩ := id h
  obtain ⟨types, htypes⟩ := exists_typed hv (isSome_of_node? hnode)
  exact (htypes.all hc hs hdata).declaredInputs accepted
    (List.mem_of_getElem? (h.of_typed htypes))

end Condition

/-- Where all edges fit, an input that has edges is left with something, and with a subtype of what
it declares, if no numeric set in that has touching real intervals. -/
theorem narrowed_inputs_agree (hv : g.Valid) (hcompat : g.Compatible)
    (hs : g.scope.Supplies Ty.NeatLayer)
    (hdata : ∀ node ∈ g.nodes, (Json.object node.data).MembersOnce) {e : CommittedEdge}
    (he : e ∈ g.edges) :
    ∃ declared connected t, g.Settles (g.declaredInputType e.target e.targetSocket) (.ok declared) ∧
      g.connectedTypes e.target e.targetSocket = .ok connected ∧
      g.Settles (g.inputType e.target e.targetSocket) (.ok t) ∧
      t = (Ty.unionAll connected).intersect declared ∧
      ((∀ c ∈ declared :: connected, Everywhere FittedLayer c) →
        t ≠ .never ∧ (declared.Spread → t.isSubtype declared = true)) := by
  obtain ⟨declared, carried, ha, hcarries, hinput⟩ := exists_narrowed hv he
  refine ⟨declared, (g.connections e.target e.targetSocket).map carried, _, ha.settles hv,
    mapM_eq_ok fun c hc => ((hcarries c hc).settles hv).fresh_eq, hinput, rfl, fun hfitted => ?_⟩
  rw [List.forall_mem_cons] at hfitted
  have hdeclared : declared.Measured :=
    Ty.measured_of_neat (ha.everywhere evaluated_neatLayer hs hdata hv) hfitted.1
  have hconnected : ∀ t ∈ (g.connections e.target e.targetSocket).map carried, t.Measured := by
    intro t ht
    have hfitted := hfitted.2 t ht
    obtain ⟨c, hc, rfl⟩ := List.mem_map.1 ht
    exact Ty.measured_of_neat ((hcarries c hc).everywhere evaluated_neatLayer hs hdata) hfitted
  have hmem : e ∈ g.connections e.target e.targetSocket :=
    List.mem_filter.2 ⟨mem_incoming.2 ⟨he, rfl⟩, by simp⟩
  have hoverlaps : (carried e).Overlaps declared := (hcompat e he).overlaps hv (hcarries e hmem) ha
  exact ⟨Ty.overlaps_unionAll hdeclared hconnected ⟨_, List.mem_map_of_mem hmem, hoverlaps⟩,
    (Ty.intersect_isSubtype (Ty.measured_unionAll hconnected) hdeclared).2⟩

end Graph

section Runs
variable {scope : Scope} {config : GraphConfig} {kinds : List NodeKind}
  {aliases : List (String × String)} {g : Graph}

/-- After every run in which each change is followed by a revalidation. -/
theorem Session.narrowing_agrees_with_admission (hbuilt : scope.Built) (hfields : scope.FieldsOnce)
    (h : Graph.create scope config kinds aliases = .ok g)
    (hconfig : config.revalidateOnChange = true) (actions : List Action) :
    let s := (Session.new g).run actions
    (∀ node ∈ s.graph.nodes, (Json.object node.data).MembersOnce) → ∀ e ∈ s.graph.edges,
      ∃ declared connected t,
        (s.graph.declaredInputType e.target e.targetSocket).answer s.cache = .ok declared ∧
        s.graph.connectedTypes e.target e.targetSocket = .ok connected ∧
        (s.graph.inputType e.target e.targetSocket).answer s.cache = .ok t ∧
        t = (Ty.unionAll connected).intersect declared ∧
        ((∀ c ∈ declared :: connected, Everywhere FittedLayer c) →
          t ≠ .never ∧ (declared.Spread → t.isSubtype declared = true)) := by
  intro s hdata e he
  have hsound := (Session.sound_new h).run actions
  have hscope : s.graph.scope = scope := by
    obtain ⟨registered, hg⟩ := create_eq h
    exact (Graph.stable_scope scope).invariant.run (s := .new g) (by rw [hg]; rfl) actions
  have hs : s.graph.scope.Supplies Ty.NeatLayer :=
    hscope ▸ hbuilt.supplies evaluated_neatLayer hfields
  obtain ⟨declared, connected, t, hdeclared, hconnected, ht, hrest⟩ :=
    Graph.narrowed_inputs_agree hsound.valid (hsound.compatible hconfig) hs hdata he
  exact ⟨declared, connected, t, (hdeclared s.cache hsound.coherent).1, hconnected,
    (ht s.cache hsound.coherent).1, hrest⟩

end Runs

section Absorbed

/-- The first number to which one is added without effect. -/
def stalled : Number := 9007199254740992

def stalledPoint : Ty := .interval (.closed stalled) (.closed stalled)

def aboveStalled : Ty := .interval (.of stalled false) .unboundedAbove

/-- One of the structs `S` and `T`, with a field of the first or of the second type. -/
def eitherOf (first second : Ty) : Ty :=
  .unionAll [.struct "S" [("x", first)], .struct "T" [("x", second)]]

/-- Two outputs of which each fits an input alone leave it nothing together: the point is taken for
one of the numbers above it, so that the union has both structs with these numbers only. -/
theorem absorbed_points_are_lost :
    let declared := eitherOf stalledPoint stalledPoint
    let left := eitherOf stalledPoint aboveStalled
    let right := eitherOf aboveStalled stalledPoint
    left.isDisjoint declared = false ∧ right.isDisjoint declared = false ∧
      NodeTypes.narrow declared [left, right] = .never := by
  intro declared left right
  have hnever : (NodeTypes.narrow declared [left, right]).isNever = true := by decide +kernel
  exact ⟨by decide +kernel, by decide +kernel, Ty.isNever_iff.1 hnever⟩

end Absorbed

end TypedFlow
