import TypedFlow.Proofs.Pipeline.Structure

/-!
# Types from scratch

The types of a node are determined by its kind and data and by what its sources produce. `Typed`
states this without a cache and without an order of evaluation, and `Typed.unique` says that nothing
else enters. A cache is coherent when it holds such types only; typing a node keeps it coherent, as
the ancestry has the sources of every node before the node. `Typed.congr` bounds the effect of a
change: what two graphs agree on with all that it depends on has the same types in both.
-/
namespace TypedFlow

/-- The type that leaves an output. -/
def NodeTypes.output (types : NodeTypes) (socket : Nat) : Ty := types.outputs[socket]?.getD .any

namespace Graph
variable {g g' : Graph}

/-- What flows into a node whose sources have the types given. -/
def flows (g : Graph) (sources : NodeId → NodeTypes) (id : NodeId) : List (Nat × Ty) :=
  (g.incoming id).map fun e => (e.targetSocket, (sources e.source).output e.sourceSocket)

/-- The types that nodes and edges alone determine. -/
inductive Typed (g : Graph) : NodeId → NodeTypes → Prop
  | node {id : NodeId} {node : Node} {sources : NodeId → NodeTypes} (hnode : g.node? id = some node)
      (hsources : ∀ e ∈ g.incoming id, Typed g e.source (sources e.source)) :
      Typed g id (.compute g node (g.flows sources id))

theorem flows_congr {sources others : NodeId → NodeTypes} {id : NodeId}
    (h : ∀ e ∈ g.incoming id, sources e.source = others e.source) :
    g.flows sources id = g.flows others id :=
  List.map_congr_left fun e he => by rw [h e he]

theorem Typed.unique {id : NodeId} {types others : NodeTypes} (h : g.Typed id types)
    (h' : g.Typed id others) : types = others := by
  induction h generalizing others with
  | node hnode _ ih =>
    cases h' with
    | node hnode' hsources' =>
      obtain rfl := Option.some.inj (hnode.symm.trans hnode')
      rw [flows_congr fun e he => ih e he (hsources' e he)]

theorem Typed.exists_node {id : NodeId} {types : NodeTypes} (h : g.Typed id types) :
    ∃ node, g.node? id = some node := by
  cases h with
  | node hnode _ => exact ⟨_, hnode⟩

/-- Of a graph, typing a node needs the scope and the configuration. -/
theorem compute_congr (hscope : g'.scope = g.scope) (hconfig : g'.config = g.config) (node : Node)
    (flows : List (Nat × Ty)) : NodeTypes.compute g' node flows = .compute g node flows := by
  simp only [NodeTypes.compute, NodeTypes.ofIncoming, NodeTypes.socketType, hscope, hconfig]

/-- Two graphs agree on some nodes, and on everything that these depend on. -/
structure AgreeOn (kept : NodeId → Prop) (g g' : Graph) : Prop where
  scope : g'.scope = g.scope
  config : g'.config = g.config
  node : ∀ id, kept id → g'.node? id = g.node? id
  incoming : ∀ id, kept id → g'.incoming id = g.incoming id
  source : ∀ id, kept id → ∀ e ∈ g.incoming id, kept e.source

theorem Typed.congr {kept : NodeId → Prop} (hagree : AgreeOn kept g g') {id : NodeId}
    {types : NodeTypes} (h : g.Typed id types) (hid : kept id) : g'.Typed id types := by
  induction h with
  | @node id node sources hn _ ih =>
    have hflows : g'.flows sources id = g.flows sources id := by
      rw [flows, flows, hagree.incoming id hid]
    rw [← hflows, ← compute_congr hagree.scope hagree.config]
    refine .node (by rw [hagree.node id hid, hn]) fun e he => ?_
    rw [hagree.incoming id hid] at he
    exact ih e he (hagree.source id hid e he)

/-- Every type that a cache holds is the one that nodes and edges determine. -/
def Coherent (g : Graph) (cache : TypeCache) : Prop :=
  ∀ id types, cache.get? id = some types → g.Typed id types

theorem coherent_nil : g.Coherent [] := fun _ _ h => by cases h

theorem carried_of_get? {cache : TypeCache} {e : CommittedEdge} {types : NodeTypes}
    (h : cache.get? e.source = some types) : carried cache e = types.output e.sourceSocket := by
  simp [carried, h, NodeTypes.output]

theorem remember_of_some {cache : TypeCache} {id : NodeId} {types : NodeTypes}
    (h : cache.get? id = some types) : g.remember cache id = cache := by
  simp [remember, h]

theorem remember_of_none {cache : TypeCache} {id : NodeId} {node : Node}
    (h : cache.get? id = none) (hnode : g.node? id = some node) :
    g.remember cache id = cache.insert id (.compute g node
      ((g.incoming id).map fun e => (e.targetSocket, carried cache e))) := by
  simp [remember, h, hnode]

theorem remember_spec {cache : TypeCache} {id : NodeId} (hc : g.Coherent cache)
    (hnode : (g.node? id).isSome) (hs : ∀ e ∈ g.incoming id, (cache.get? e.source).isSome) :
    g.Coherent (g.remember cache id) ∧ ((g.remember cache id).get? id).isSome ∧
      ∀ a, (cache.get? a).isSome → ((g.remember cache id).get? a).isSome := by
  cases hget : cache.get? id with
  | some types =>
    rw [remember_of_some hget]
    exact ⟨hc, by rw [hget]; rfl, fun _ ha => ha⟩
  | none =>
    obtain ⟨node, hn⟩ := Option.isSome_iff_exists.1 hnode
    let sources (a : NodeId) : NodeTypes := (cache.get? a).getD ⟨[], [], [], []⟩
    have hsources : ∀ e ∈ g.incoming id, cache.get? e.source = some (sources e.source) := by
      intro e he
      obtain ⟨types, htypes⟩ := Option.isSome_iff_exists.1 (hs e he)
      simp [sources, htypes]
    have hflows : ((g.incoming id).map fun e => (e.targetSocket, carried cache e)) =
        g.flows sources id :=
      List.map_congr_left fun e he => by rw [carried_of_get? (hsources e he)]
    rw [remember_of_none hget hn, hflows]
    refine ⟨?_, ?_, ?_⟩
    · intro a types ha
      rw [Entries.get?_insert] at ha
      split at ha
      · rename_i heq
        subst heq
        obtain rfl := Option.some.inj ha
        exact .node hn fun e he => hc _ _ (hsources e he)
      · exact hc a types ha
    · rw [Entries.get?_insert, if_pos rfl]
      rfl
    · intro a ha
      rw [Entries.get?_insert]
      split
      · rfl
      · exact ha

/-- Typing nodes in an order that has sources first types all of them. -/
theorem remember_all {rest : List NodeId} {before : List NodeId} {cache : TypeCache}
    (horder : g.SourcesFirst (before ++ rest)) (hnode : ∀ a ∈ rest, (g.node? a).isSome)
    (hbefore : ∀ a ∈ before, (cache.get? a).isSome) (hc : g.Coherent cache) :
    g.Coherent (rest.foldl g.remember cache) ∧
      ∀ a ∈ before ++ rest, ((rest.foldl g.remember cache).get? a).isSome := by
  induction rest generalizing before cache with
  | nil => exact ⟨hc, by simpa using hbefore⟩
  | cons id rest ih =>
    obtain ⟨hc₁, hid, hkept⟩ := remember_spec hc (hnode id List.mem_cons_self)
      fun e he => hbefore e.source (horder before id rest rfl e he)
    have heq : before ++ id :: rest = (before ++ [id]) ++ rest := by simp
    rw [heq] at horder ⊢
    refine ih horder (fun a ha => hnode a (List.mem_cons_of_mem id ha)) ?_ hc₁
    intro a ha
    rcases List.mem_append.1 ha with ha | ha
    · exact hkept a (hbefore a ha)
    · exact List.mem_singleton.1 ha ▸ hid

theorem withNode_spec (hv : g.Valid) {cache : TypeCache} (hc : g.Coherent cache) (id : NodeId) :
    g.Coherent (g.withNode cache id) ∧
      ((g.node? id).isSome → ((g.withNode cache id).get? id).isSome) := by
  simp only [withNode]
  split
  · rename_i hhas
    rw [Entries.has_eq_isSome] at hhas
    exact ⟨hc, fun _ => hhas⟩
  · cases hnode : g.node? id with
    | none =>
      rw [ ancestry?_eq_none hnode]
      exact ⟨hc, fun h => by cases h⟩
    | some node =>
      obtain ⟨order, heq, hmem, hexist, hfirst⟩ := ancestry_spec hv (isSome_of_node? hnode)
      have hall := @remember_all g order [] cache hfirst hexist
        (fun _ ha => absurd ha List.not_mem_nil) hc
      rw [heq]
      exact ⟨hall.1, fun _ => hall.2 id hmem⟩

theorem exists_typed (hv : g.Valid) {id : NodeId} (h : (g.node? id).isSome) :
    ∃ types, g.Typed id types := by
  obtain ⟨hc, hget⟩ := withNode_spec hv coherent_nil id
  obtain ⟨types, htypes⟩ := Option.isSome_iff_exists.1 (hget h)
  exact ⟨types, hc id types htypes⟩

theorem exists_types (hv : g.Valid) :
    ∃ types : NodeId → NodeTypes, ∀ id, (g.node? id).isSome → g.Typed id (types id) := by
  classical
  refine ⟨fun id => if h : (g.node? id).isSome then (exists_typed hv h).choose
    else ⟨[], [], [], []⟩, fun id h => ?_⟩
  simp only [dif_pos h]
  exact (exists_typed hv h).choose_spec

end Graph
end TypedFlow
