import TypedFlow.Proofs.Pipeline.Runs
import TypedFlow.Proofs.Scope.Build

/-!
# References of sockets

A graph is made with kinds whose sockets have been checked, and its nodes have the sockets of kinds.
The check binds what evaluation binds: the data of the node, and for an output the inputs by number.
So over a scope that was built, nothing is undefined for an expression that passed the check of
references, nor for a socket of any graph (`checked_references_are_found`).
-/
namespace TypedFlow

/-- The names that the outputs of a node with so many inputs can use. -/
def outputBindings (inputs : Nat) : List String :=
  (List.range inputs).map inputBinding ++ [dataBinding]

/-- The type that a socket declares is well formed and refers to what is there. -/
def SocketChecked (scope : Scope) (bound : List String) (declared : Option Expr) : Prop :=
  ∀ e ∈ declared, e.WellFormed ∧ scope.firstUndefined bound e = none

structure SocketsChecked (scope : Scope) (inputs : List InputSocket) (outputs : List OutputSocket) :
    Prop where
  ofInput : ∀ s ∈ inputs, SocketChecked scope [dataBinding] s.declared
  ofOutput : ∀ s ∈ outputs, SocketChecked scope (outputBindings inputs.length) s.declared

namespace NodeKind

/-- What a kind that was read declares is well formed. -/
theorem wellFormed_of_declaredType {kind label : String} {source : Option String}
    {declared : Option Expr} (h : declaredType kind label source = .ok declared) :
    ∀ e ∈ declared, e.WellFormed := by
  intro e he
  cases source with
  | none =>
    cases h
    cases he
  | some source =>
    simp only [declaredType] at h
    cases hparse : Expr.parse source with
    | error fault =>
      rw [hparse] at h
      cases h
    | ok found =>
      rw [hparse] at h
      cases h
      cases he
      exact Expr.wellFormed_of_parse hparse

theorem wellFormed_of_definition {d : KindDefinition} {kind : NodeKind}
    (h : ofDefinition d = .ok kind) : (∀ s ∈ kind.inputs, ∀ e ∈ s.declared, e.WellFormed) ∧
      ∀ s ∈ kind.outputs, ∀ e ∈ s.declared, e.WellFormed := by
  obtain ⟨inputs, hinputs, h⟩ := of_bind_eq_ok h
  obtain ⟨outputs, houtputs, h⟩ := of_bind_eq_ok h
  cases h
  constructor
  · intro s hs
    obtain ⟨d, -, hd⟩ := exists_of_mem_mapM hinputs s hs
    obtain ⟨declared, hdeclared, hs⟩ := of_bind_eq_ok hd
    cases hs
    exact wellFormed_of_declaredType hdeclared
  · intro s hs
    obtain ⟨d, -, hd⟩ := exists_of_mem_mapM houtputs s hs
    obtain ⟨declared, hdeclared, hs⟩ := of_bind_eq_ok hd
    cases hs
    exact wellFormed_of_declaredType hdeclared

/-- A kind that was read and has passed its check. -/
theorem socketsChecked {scope : Scope} {d : KindDefinition} {kind : NodeKind}
    (h : ofDefinition d = .ok kind) (hcheck : kind.checkReferences scope = .ok ()) :
    SocketsChecked scope kind.inputs kind.outputs := by
  obtain ⟨hinputs, houtputs⟩ := wellFormed_of_definition h
  have hnone : kind.firstUndefined scope = none := by
    cases hmissing : kind.firstUndefined scope with
    | none => rfl
    | some missing =>
      simp only [checkReferences, hmissing] at hcheck
      cases hcheck
  simp only [firstUndefined, Option.or_eq_none_iff, List.findSome?_eq_none_iff,
    Option.map_eq_none_iff, Option.bind_eq_none_iff] at hnone
  exact ⟨fun s hs e he => ⟨hinputs s hs e he, hnone.1 s hs e he⟩,
    fun s hs e he => ⟨houtputs s hs e he, hnone.2 s hs e he⟩⟩

end NodeKind

namespace Graph
variable {scope : Scope} {g : Graph}

/-- The graph stands over a scope, and all its sockets have been checked there. -/
structure Checked (scope : Scope) (g : Graph) : Prop where
  scope_eq : g.scope = scope
  kinds : ∀ name kind, g.kinds.get? name = some kind → SocketsChecked scope kind.inputs kind.outputs
  nodes : ∀ node ∈ g.nodes, SocketsChecked scope node.inputs node.outputs

/-- Aliases give kinds more names. -/
theorem of_registerAliases {P : NodeKind → Prop} {aliases : List (String × String)}
    {kinds all : Entries NodeKind} (h : aliases.foldlM registerAlias kinds = .ok all)
    (hkinds : ∀ name kind, kinds.get? name = some kind → P kind) :
    ∀ name kind, all.get? name = some kind → P kind := by
  induction aliases generalizing kinds with
  | nil =>
    cases h
    exact hkinds
  | cons entry aliases ih =>
    obtain ⟨more, hmore, h⟩ := of_bind_eq_ok h
    refine ih h fun name kind hget => ?_
    simp only [registerAlias] at hmore
    cases hfound : kinds.get? entry.2 with
    | none =>
      rw [hfound] at hmore
      cases hmore
    | some found =>
      rw [hfound] at hmore
      cases hmore
      rw [Entries.get?_insert] at hget
      by_cases hname : entry.1 = name
      · rw [if_pos hname] at hget
        cases hget
        exact hkinds entry.2 kind hfound
      · rw [if_neg hname] at hget
        exact hkinds name kind hget

/-- A graph that is made from kinds that were read. -/
theorem checked_of_create {config : GraphConfig} {definitions : List KindDefinition}
    {kinds : List NodeKind} (hread : definitions.mapM NodeKind.ofDefinition = .ok kinds)
    {aliases : List (String × String)} (h : create scope config kinds aliases = .ok g) :
    g.Checked scope := by
  obtain ⟨registered, hregistered, h⟩ := of_bind_eq_ok h
  obtain ⟨all, hall, h⟩ := of_bind_eq_ok h
  cases h
  obtain ⟨_, hchecks, hregistered⟩ := of_bind_eq_ok hregistered
  cases hregistered
  refine ⟨rfl, ?_, fun node hnode => absurd hnode List.not_mem_nil⟩
  refine of_registerAliases hall fun name kind hget => ?_
  have hmem := Entries.mem_of_get? hget
  obtain ⟨_, hkind, heq⟩ := List.mem_map.1 (Entries.mem_of_mem_ofList hmem)
  cases heq
  obtain ⟨d, -, hd⟩ := exists_of_mem_mapM hread kind hkind
  exact NodeKind.socketsChecked hd (ok_of_forIn hchecks _ hmem)

theorem Checked.subset (h : g.Checked scope) {g' : Graph} (hscope : g'.scope = g.scope)
    (hkinds : g'.kinds = g.kinds) (hnodes : ∀ node ∈ g'.nodes, ∃ other ∈ g.nodes,
      node.inputs = other.inputs ∧ node.outputs = other.outputs) : g'.Checked scope := by
  refine ⟨hscope.trans h.scope_eq, hkinds ▸ h.kinds, fun node hnode => ?_⟩
  obtain ⟨other, hother, hi, ho⟩ := hnodes node hnode
  rw [hi, ho]
  exact h.nodes other hother

theorem Checked.appendNode (h : g.Checked scope) {name : String} {kind : NodeKind}
    (hkind : g.kinds.get? name = some kind) (id : NodeId) (data : NodeData) :
    (g.appendNode (kind.instantiate id data)).Checked scope := by
  refine ⟨h.scope_eq, h.kinds, fun node hnode => ?_⟩
  rcases List.mem_append.1 hnode with hnode | hnode
  · exact h.nodes node hnode
  · obtain rfl := List.mem_singleton.1 hnode
    exact h.kinds name kind hkind

theorem Checked.eraseNode (h : g.Checked scope) (id : NodeId) : (g.eraseNode id).Checked scope :=
  h.subset rfl rfl fun node hnode => ⟨node, (List.mem_filter.1 hnode).1, rfl, rfl⟩

theorem Checked.setData (h : g.Checked scope) (id : NodeId) (data : NodeData) :
    (g.setData id data).Checked scope := by
  refine h.subset rfl rfl fun node hnode => ?_
  obtain ⟨other, hother, rfl⟩ := List.mem_map.1 hnode
  refine ⟨other, hother, ?_⟩
  split <;> exact ⟨rfl, rfl⟩

/-- Edges do not matter. -/
theorem Checked.withEdges (h : g.Checked scope) (edges : List CommittedEdge) (nextEdge : Nat) :
    Checked scope { g with edges, nextEdge } :=
  ⟨h.scope_eq, h.kinds, h.nodes⟩

end Graph

theorem Graph.stable_checked (scope : Scope) : Graph.Stable (Graph.Checked scope) where
  appendNode h hkind id data := h.appendNode hkind id data
  eraseNode h id := h.eraseNode id
  setData h id data := h.setData id data
  withEdges h edges nextEdge := h.withEdges edges nextEdge

namespace NodeTypes
open Evaluation (Binds)
variable {scope : Scope} {g : Graph}

/-- Nothing is undefined for what went wrong. -/
abbrev AllDefined (ds : List Diagnostic) : Prop :=
  ∀ d ∈ ds, ∀ name, d.error ≠ .undefinedReference name

theorem allDefined_socketType (hscope : g.scope = scope) (hs : scope.Complete) {bound : List String}
    {declared : Option Expr} (hd : SocketChecked scope bound declared) (node : NodeId)
    {bindings : Bindings} (hb : Binds bindings bound) (socket : SocketRef) :
    AllDefined (socketType g node bindings socket declared).2 := by
  cases declared with
  | none => exact fun d hd => absurd hd List.not_mem_nil
  | some e =>
    obtain ⟨hwell, hu⟩ := hd e rfl
    have hdefined := defined_evaluate hs hwell hu g.config.maxCallDepth hb
    rw [← hscope] at hdefined
    unfold socketType
    dsimp only
    cases hrun : evaluate g.scope g.config.maxCallDepth bindings e with
    | ok t => exact fun d hd => absurd hd List.not_mem_nil
    | error reason =>
      rw [hrun] at hdefined
      intro d hmem
      obtain rfl := List.mem_singleton.1 hmem
      exact hdefined

/-- Every input has its binding, beside what was bound before. -/
theorem binds_inputs (inputs : List Ty) {bindings : Bindings} {names : List String}
    (hb : Binds bindings names) :
    Binds (inputs.zipIdx.foldl (fun b (t, i) => b.insert (inputBinding i) t) bindings)
      ((List.range inputs.length).map inputBinding ++ names) := by
  have hall : inputs.zipIdx.foldl (fun b (t, i) => b.insert (inputBinding i) t) bindings =
      Entries.insertAll (·.2) (inputs.zipIdx.map fun (t, i) => (inputBinding i, t)) bindings := by
    rw [Entries.insertAll, List.foldl_map]
  have hnames : Entries.names (inputs.zipIdx.map fun (t, i) => (inputBinding i, t)) =
      (List.range inputs.length).map inputBinding := by
    rw [List.range_eq_range', ← List.zipIdx_map_snd 0 inputs, List.map_map]
    simp [Entries.names, Function.comp_def]
  intro n hn
  rw [hall, Entries.isSome_get?_insertAll, hnames]
  exact (List.mem_append.1 hn).imp_right (hb n)

theorem binds_flows {declared : List Ty} {inputs : Nat} (hlen : declared.length = inputs)
    (flows : List (Nat × Ty)) {bindings : Bindings} (hb : Binds bindings [dataBinding]) :
    Binds ((List.zipWith narrow declared (distribute inputs flows)).zipIdx.foldl
      (fun b (t, i) => b.insert (inputBinding i) t) bindings) (outputBindings inputs) := by
  have hinputs := binds_inputs (List.zipWith narrow declared (distribute inputs flows)) hb
  simpa [hlen, distribute, outputBindings] using hinputs

theorem allDefined_compute (hscope : g.scope = scope) (hs : scope.Complete) {node : Node}
    (hnode : SocketsChecked scope node.inputs node.outputs) (flows : List (Nat × Ty)) :
    AllDefined (compute g node flows).diagnostics := by
  have hdata : Binds [(dataBinding, dataType node.data)] [dataBinding] := by
    simp [Binds, Entries.get?_cons]
  intro d hd
  unfold compute ofIncoming at hd
  dsimp only at hd
  rw [List.mem_append, List.mem_flatMap, List.mem_flatMap] at hd
  rcases hd with ⟨result, hresult, hd⟩ | ⟨result, hresult, hd⟩
  · obtain ⟨⟨socket, i⟩, hsocket, rfl⟩ := List.mem_map.1 hresult
    have hmem : socket ∈ node.inputs := List.fst_mem_of_mem_zipIdx hsocket
    exact allDefined_socketType hscope hs (hnode.ofInput socket hmem) node.id hdata _ d hd
  · obtain ⟨⟨socket, i⟩, hsocket, rfl⟩ := List.mem_map.1 hresult
    have hmem : socket ∈ node.outputs := List.fst_mem_of_mem_zipIdx hsocket
    refine allDefined_socketType hscope hs (hnode.ofOutput socket hmem) node.id ?_ _ d hd
    exact binds_flows (by simp) flows hdata

end NodeTypes

theorem Graph.Typed.allDefined {scope : Scope} {g : Graph} {id : NodeId} {types : NodeTypes}
    (h : g.Typed id types) (hs : scope.Complete) (hg : g.Checked scope) :
    NodeTypes.AllDefined types.diagnostics := by
  cases h with
  | node hnode _ =>
    exact NodeTypes.allDefined_compute hg.scope_eq hs (hg.nodes _ (mem_nodes_of_node? hnode).1) _

/-- Diagnostics can always be had, and nothing is undefined for any of them. -/
theorem Graph.defined_diagnostics {scope : Scope} {g : Graph} (hs : scope.Complete)
    (hv : g.Valid) (hg : g.Checked scope) {cache : TypeCache} (hc : g.Coherent cache) :
    ∃ ds, g.diagnostics.answer cache = .ok ds ∧ NodeTypes.AllDefined ds := by
  obtain ⟨types, htypes⟩ := exists_types hv
  have hexists : ∀ node ∈ g.nodes, g.Typed node.id (types node.id) := fun node hnode =>
    htypes node.id (node?_isSome_iff.2 (List.mem_map_of_mem hnode))
  refine ⟨(g.nodes.map fun node => (types node.id).diagnostics).flatten, ?_, fun d hd => ?_⟩
  · have hall := settles_mapM_ok (f := fun node : Node => do
        return (← g.nodeTypes node.id).diagnostics) fun node hnode =>
      (settles_nodeTypes hv (hexists node hnode)).bind_ok (settles_pure _)
    exact (hall.bind_ok (f := fun ds => pure ds.flatten) (settles_pure _) cache hc).1
  · obtain ⟨ds, hds, hd⟩ := List.mem_flatten.1 hd
    obtain ⟨node, hnode, rfl⟩ := List.mem_map.1 hds
    exact (hexists node hnode).allDefined hs hg d hd

/-- Over a scope that was built, nothing is undefined for an expression whose references have been
checked, whatever is called and opened on the way, nor for a socket of a graph after any run. -/
theorem checked_references_are_found {scope : Scope} (hs : scope.Built) :
    (∀ (source : String) (e : Expr) (limit : Nat) (bindings : Bindings),
      Expr.parse source = .ok e → scope.firstUndefined (Entries.names bindings) e = none →
      ∀ name, evaluate scope limit bindings e ≠ .error (.undefinedReference name)) ∧
    ∀ (config : GraphConfig) (definitions : List KindDefinition) (kinds : List NodeKind)
      (aliases : List (String × String)) (g : Graph) (actions : List Action),
      definitions.mapM NodeKind.ofDefinition = .ok kinds →
      Graph.create scope config kinds aliases = .ok g →
      let s := (Session.new g).run actions
      ∃ ds, s.graph.diagnostics.answer s.cache = .ok ds ∧
        ∀ d ∈ ds, ∀ name, d.error ≠ .undefinedReference name := by
  have hcomplete := hs.complete
  constructor
  · intro source e limit bindings hparse hu name hrun
    have hb : Evaluation.Binds bindings (Entries.names bindings) :=
      fun n hn => Entries.get?_isSome_iff.2 hn
    have hdefined := defined_evaluate hcomplete (Expr.wellFormed_of_parse hparse) hu limit hb
    rw [hrun] at hdefined
    exact hdefined name rfl
  · intro config definitions kinds aliases g actions hread hcreate s
    have hsound := (Session.sound_new hcreate).run actions
    have hchecked : s.graph.Checked scope :=
      (Graph.stable_checked scope).invariant.run (Graph.checked_of_create hread hcreate) actions
    exact Graph.defined_diagnostics hcomplete hsound.valid hchecked hsound.coherent

/-! A scope with the sides of a switch, and a kind that turns the side in its data. Without such data
a node of the kind has a diagnostic. -/

def sideIngredients : List Ingredient :=
  [.builtin .any, .source "enum side \x7b left, right(any()) \x7d
    def turn(s: side) \x7b match s \x7b side::left as x => side::right(x), _ => side::left \x7d \x7d"]

def sideBuilder : ScopeBuilder := sideIngredients.foldl ScopeBuilder.mix (.new "sides" [])

def sideScope : Scope := sideBuilder.build.toOption.getD []

theorem build_sideScope : sideBuilder.build = .ok sideScope := eq_ok_of_isOk (by decide +kernel) []

def turnCall : Expr := (Expr.parse "turn(s)").toOption.getD default

theorem parse_turnCall : Expr.parse "turn(s)" = .ok turnCall :=
  eq_ok_of_isOk (by decide +kernel) default

def turnDefinition : KindDefinition :=
  ⟨"turn", .transform, [⟨"in", some "side", none⟩], [⟨"out", some "turn(data.side)"⟩]⟩

def turnKinds : List NodeKind := ([turnDefinition].mapM NodeKind.ofDefinition).toOption.getD []

theorem read_turnKinds : [turnDefinition].mapM NodeKind.ofDefinition = .ok turnKinds :=
  eq_ok_of_isOk (by decide +kernel) []

def turnGraph : Graph :=
  (Graph.create sideScope .default turnKinds []).toOption.getD ⟨[], [], .default, [], [], 0⟩

theorem create_turnGraph : Graph.create sideScope .default turnKinds [] = .ok turnGraph :=
  eq_ok_of_isOk (by decide +kernel) _

theorem turn_is_found : sideScope.firstUndefined ["s"] turnCall = none ∧
    (∀ name, evaluate sideScope 1 [("s", .any)] turnCall ≠ .error (.undefinedReference name)) ∧
    let s := (Session.new turnGraph).run [.addNode "t" "turn" []]
    ∃ ds, s.graph.diagnostics.answer s.cache = .ok ds ∧ ds.length = 1 ∧
      ∀ d ∈ ds, ∀ name, d.error ≠ .undefinedReference name := by
  have hfound := checked_references_are_found (.layer .nothing build_sideScope)
  have hu : sideScope.firstUndefined ["s"] turnCall = none := by decide +kernel
  refine ⟨hu, hfound.1 _ turnCall 1 [("s", .any)] parse_turnCall hu, ?_⟩
  intro s
  obtain ⟨ds, hds, hall⟩ := hfound.2 .default [turnDefinition] turnKinds [] turnGraph
    [.addNode "t" "turn" []] read_turnKinds create_turnGraph
  have hlength : (s.graph.diagnostics.answer s.cache).toOption.map List.length = some 1 := by
    decide +kernel
  refine ⟨ds, hds, ?_, hall⟩
  rw [hds] at hlength
  exact Option.some.inj hlength

end TypedFlow
