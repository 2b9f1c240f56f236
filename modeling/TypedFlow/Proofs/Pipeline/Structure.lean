import TypedFlow.Pipeline.Admission
import TypedFlow.Proofs.Schedule.PostOrder

/-!
# Valid graphs

A graph is valid when its ids are unique, its edges join existing sockets without a cycle, and no
input takes more edges than it may. On valid graphs the searches over places become facts about
nodes: `mem_downstream_iff` for what an edit can touch, `sourcesFirst_executionOrder` and
`ancestry_spec` for the orders in which nodes are typed.
-/
namespace TypedFlow
open Relation (ReflTransGen TransGen)

def Edge.HasSource (g : Graph) (e : Edge) : Prop :=
  ∃ node, g.node? e.source = some node ∧ e.sourceSocket < node.outputs.length

def Edge.HasTarget (g : Graph) (e : Edge) : Prop :=
  ∃ node, g.node? e.target = some node ∧ e.targetSocket < node.inputs.length

/-- Both ends of an edge are sockets of different nodes of a graph. -/
structure Edge.Attached (g : Graph) (e : Edge) : Prop where
  source : e.HasSource g
  target : e.HasTarget g
  ne : e.source ≠ e.target

namespace Graph

/-- A committed edge leads from the one node to the other. -/
def Feeds (g : Graph) (a b : NodeId) : Prop := ∃ e ∈ g.edges, e.source = a ∧ e.target = b

def Acyclic (g : Graph) : Prop := ∀ id, ¬ TransGen g.Feeds id id

structure Valid (g : Graph) : Prop where
  nodes_nodup : (g.nodes.map (·.id)).Nodup
  /-- Ids of edges ascend, so no two are equal. -/
  edges_ascending : (g.edges.map (·.id)).Pairwise (· < ·)
  edge_lt : ∀ e ∈ g.edges, e.id < g.nextEdge
  attached : ∀ e ∈ g.edges, e.toEdge.Attached g
  acyclic : g.Acyclic
  arity : ∀ id i socket, g.input? id i = some socket →
    (g.connections id i).length ≤ g.arityOf socket

variable {g : Graph}

theorem mem_incoming {id : NodeId} {e : CommittedEdge} :
    e ∈ g.incoming id ↔ e ∈ g.edges ∧ e.target = id := by
  simp [incoming]

theorem mem_nodes_of_node? {id : NodeId} {node : Node} (h : g.node? id = some node) :
    node ∈ g.nodes ∧ node.id = id := by
  have hp := List.find?_some h
  exact ⟨List.mem_of_find?_eq_some h, by simpa using hp⟩

theorem isSome_of_node? {id : NodeId} {node : Node} (h : g.node? id = some node) :
    (g.node? id).isSome := by
  rw [h]
  rfl

theorem isSome_source {e : Edge} (h : e.Attached g) : (g.node? e.source).isSome := by
  obtain ⟨node, hnode, -⟩ := h.source
  exact isSome_of_node? hnode

theorem isSome_target {e : Edge} (h : e.Attached g) : (g.node? e.target).isSome := by
  obtain ⟨node, hnode, -⟩ := h.target
  exact isSome_of_node? hnode

theorem node?_isSome_iff {id : NodeId} : (g.node? id).isSome ↔ id ∈ g.nodes.map (·.id) := by
  simp [node?, List.find?_isSome]

section Index

theorem adjacency_indexed : g.adjacency.Indexed := Adjacency.indexed_ofEdges _ _

theorem indexOf?_eq_some_iff (hn : (g.nodes.map (·.id)).Nodup) {id : NodeId} {i : Nat} :
    g.adjacency.indexOf? id = some i ↔ g.adjacency.ids[i]? = some id :=
  ⟨Adjacency.getElem?_of_lastIndex?, Adjacency.lastIndex?_of_getElem? hn⟩

theorem exists_place {id : NodeId} (h : (g.node? id).isSome) :
    ∃ i : Nat, g.adjacency.ids[i]? = some id := by
  obtain ⟨i, hi⟩ := List.getElem?_of_mem (node?_isSome_iff.1 h)
  exact ⟨i, hi⟩

theorem lt_size_of_place {id : NodeId} {i : Nat} (h : g.adjacency.ids[i]? = some id) :
    i < g.adjacency.size :=
  (List.getElem?_eq_some_iff.1 h).1

theorem isSome_of_place {id : NodeId} {i : Nat} (h : g.adjacency.ids[i]? = some id) :
    (g.node? id).isSome :=
  node?_isSome_iff.2 (List.mem_of_getElem? h)

/-- Places are linked exactly when an edge joins the nodes at them. -/
theorem mem_successors_place_iff (hn : (g.nodes.map (·.id)).Nodup) {i j : Nat} {a b : NodeId}
    (hi : g.adjacency.ids[i]? = some a) (hj : g.adjacency.ids[j]? = some b) :
    j ∈ g.adjacency.successors i ↔ g.Feeds a b := by
  simp only [adjacency]
  rw [Adjacency.mem_successors_iff]
  simp only [List.mem_map, Adjacency.link?_eq_some_iff]
  constructor
  · intro hh
    obtain ⟨_, ⟨e, he, rfl⟩, hs, ht⟩ := hh
    have hsa := Adjacency.getElem?_of_lastIndex? hs
    have htb := Adjacency.getElem?_of_lastIndex? ht
    exact ⟨e, he, Option.some.inj (hsa.symm.trans hi), Option.some.inj (htb.symm.trans hj)⟩
  · intro hh
    obtain ⟨e, he, rfl, rfl⟩ := hh
    exact ⟨_, ⟨e, he, rfl⟩, Adjacency.lastIndex?_of_getElem? hn hi,
      Adjacency.lastIndex?_of_getElem? hn hj⟩

theorem exists_place_of_lt {j : Nat} (h : j < g.adjacency.size) :
    ∃ b, g.adjacency.ids[j]? = some b :=
  ⟨_, List.getElem?_eq_getElem h⟩

theorem feeds_of_reaches (hn : (g.nodes.map (·.id)).Nodup) {i j : Nat} {a b : NodeId}
    (hi : g.adjacency.ids[i]? = some a) (hj : g.adjacency.ids[j]? = some b)
    (h : ReflTransGen (Adjacency.StepsTo g.adjacency.successors) i j) :
    ReflTransGen g.Feeds a b := by
  induction h generalizing b with
  | refl =>
    obtain rfl := Option.some.inj (hi.symm.trans hj)
    exact .refl
  | tail hreach hstep ih =>
    rename_i k l
    obtain ⟨c, hc⟩ := exists_place_of_lt
      (adjacency_indexed.predecessor_lt (adjacency_indexed.mirror.1 hstep))
    exact (ih hc).tail ((mem_successors_place_iff hn hc hj).1 hstep)

theorem reaches_of_feeds (hv : g.Valid) {i : Nat} {a b : NodeId}
    (hi : g.adjacency.ids[i]? = some a) (h : ReflTransGen g.Feeds a b) :
    ∃ j, g.adjacency.ids[j]? = some b ∧
      ReflTransGen (Adjacency.StepsTo g.adjacency.successors) i j := by
  induction h with
  | refl => exact ⟨i, hi, .refl⟩
  | tail _ hstep ih =>
    obtain ⟨j, hj, hreach⟩ := ih
    obtain ⟨e, he, hs, ht⟩ := id hstep
    obtain ⟨k, hk⟩ := exists_place (isSome_target (hv.attached e he))
    rw [ht] at hk
    exact ⟨k, hk, hreach.tail ((mem_successors_place_iff hv.nodes_nodup hj hk).2 hstep)⟩

theorem acyclic_adjacency (hv : g.Valid) : g.adjacency.Acyclic := by
  intro i hc
  obtain ⟨j, hij, hji⟩ := Relation.TransGen.head'_iff.1 hc
  obtain ⟨a, ha⟩ := exists_place_of_lt
    (adjacency_indexed.predecessor_lt (adjacency_indexed.mirror.1 hij))
  obtain ⟨b, hb⟩ := exists_place_of_lt (adjacency_indexed.successor_lt hij)
  have hfeeds := (mem_successors_place_iff hv.nodes_nodup ha hb).1 hij
  exact hv.acyclic a (.head' hfeeds (feeds_of_reaches hv.nodes_nodup hb ha hji))

end Index

/-- What is downstream of a node is what edges lead to from it. -/
theorem mem_downstream_iff (hv : g.Valid) {a b : NodeId} :
    b ∈ g.downstream a ↔ (g.node? a).isSome ∧ ReflTransGen g.Feeds a b := by
  cases hplace : g.adjacency.indexOf? a with
  | none =>
    have hnot : ¬ (g.node? a).isSome := by
      rw [node?_isSome_iff]
      exact Adjacency.lastIndex?_eq_none_iff.1 hplace
    simp [downstream, hplace, hnot]
  | some i =>
    have hi := (indexOf?_eq_some_iff hv.nodes_nodup).1 hplace
    simp only [downstream, hplace, Option.elim_some, isSome_of_place hi, true_and,
      Adjacency.mem_idsAt,
      Adjacency.mem_forward_iff adjacency_indexed (lt_size_of_place hi)]
    constructor
    · intro hh
      obtain ⟨j, hreach, hj⟩ := hh
      exact feeds_of_reaches hv.nodes_nodup hi hj hreach
    · intro h
      obtain ⟨j, hj, hreach⟩ := reaches_of_feeds hv hi h
      exact ⟨j, hreach, hj⟩

/-- Every node of a list comes after the sources of its incoming edges. -/
def SourcesFirst (g : Graph) (order : List NodeId) : Prop :=
  ∀ before id after, order = before ++ id :: after → ∀ e ∈ g.incoming id, e.source ∈ before

theorem sourcesFirst_idsAt (hv : g.Valid) {places : List Nat}
    (h : ∀ before i after, places = before ++ i :: after →
      ∀ p ∈ g.adjacency.predecessors i, p ∈ before) :
    g.SourcesFirst (g.adjacency.idsAt places) := by
  intro before b after heq e he
  obtain ⟨places₁, places₂, rfl, rfl, hrest⟩ := List.filterMap_eq_append_iff.1 heq
  obtain ⟨skipped, j, places₃, rfl, hskipped, hj, rfl⟩ := List.filterMap_eq_cons_iff.1 hrest
  obtain ⟨hmem, rfl⟩ := mem_incoming.1 he
  obtain ⟨i, hi⟩ := exists_place (isSome_source (hv.attached e hmem))
  have hlink : i ∈ g.adjacency.predecessors j := adjacency_indexed.mirror.1
    ((mem_successors_place_iff hv.nodes_nodup hi hj).2 ⟨e, hmem, rfl, rfl⟩)
  have hbefore := h (places₁ ++ skipped) j places₃ (by simp) i hlink
  rcases List.mem_append.1 hbefore with hb | hb
  · exact List.mem_filterMap.2 ⟨i, hb, hi⟩
  · have hnone : g.adjacency.ids[i]? = none := hskipped i hb
    rw [hi] at hnone
    cases hnone

theorem sourcesFirst_executionOrder (hv : g.Valid) : g.SourcesFirst g.executionOrder :=
  sourcesFirst_idsAt hv fun _ _ _ heq _ hp => Adjacency.walkFrom_topological adjacency_indexed
    (fun _ hi => List.mem_range.1 hi) (acyclic_adjacency hv) heq hp

theorem mem_executionOrder_iff {id : NodeId} :
    id ∈ g.executionOrder ↔ (g.node? id).isSome := by
  simp only [executionOrder, Adjacency.mem_idsAt, Adjacency.mem_postOrder_iff adjacency_indexed]
  constructor
  · intro hh
    obtain ⟨i, -, hi⟩ := hh
    exact isSome_of_place hi
  · intro h
    obtain ⟨i, hi⟩ := exists_place h
    exact ⟨i, lt_size_of_place hi, hi⟩

theorem nodup_executionOrder (hn : (g.nodes.map (·.id)).Nodup) : g.executionOrder.Nodup :=
  Adjacency.nodup_idsAt hn
    (Adjacency.nodup_walkFrom adjacency_indexed fun _ hi => List.mem_range.1 hi)

theorem idxOf_source_lt (hv : g.Valid) {e : CommittedEdge} (he : e ∈ g.edges) :
    g.executionOrder.idxOf e.source < g.executionOrder.idxOf e.target := by
  have hmem : e.target ∈ g.executionOrder :=
    mem_executionOrder_iff.2 (isSome_target (hv.attached e he))
  obtain ⟨before, after, heq⟩ := List.append_of_mem hmem
  exact Adjacency.idxOf_lt_of_append (nodup_executionOrder hv.nodes_nodup) heq
    (sourcesFirst_executionOrder hv before e.target after heq e (mem_incoming.2 ⟨he, rfl⟩))

theorem idxOf_le_of_reaches (hv : g.Valid) {a b : NodeId} (h : ReflTransGen g.Feeds a b) :
    g.executionOrder.idxOf a ≤ g.executionOrder.idxOf b := by
  induction h with
  | refl => exact Nat.le_refl _
  | tail _ hstep ih =>
    obtain ⟨e, he, rfl, rfl⟩ := hstep
    exact Nat.le_trans ih (Nat.le_of_lt (idxOf_source_lt hv he))

/-- The ancestry of a node ends with it, holds existing nodes, and has sources first. -/
theorem ancestry_spec (hv : g.Valid) {id : NodeId} (h : (g.node? id).isSome) :
    ∃ order, g.ancestry? id = some order ∧ id ∈ order ∧ (∀ a ∈ order, (g.node? a).isSome) ∧
      g.SourcesFirst order := by
  obtain ⟨i, hi⟩ := exists_place h
  have hlt := lt_size_of_place hi
  have hplace := (indexOf?_eq_some_iff hv.nodes_nodup).2 hi
  refine ⟨g.adjacency.idsAt (g.adjacency.ancestorsOf i), ?_, ?_, ?_, ?_⟩
  · simp [ ancestry?, hplace]
  · exact Adjacency.mem_idsAt.2
      ⟨i, (Adjacency.mem_ancestorsOf_iff adjacency_indexed hlt).2 .refl, hi⟩
  · intro a ha
    obtain ⟨j, -, hj⟩ := Adjacency.mem_idsAt.1 ha
    exact isSome_of_place hj
  · exact sourcesFirst_idsAt hv fun _ _ _ heq _ hp => Adjacency.walkFrom_topological
      adjacency_indexed (fun _ hs => List.mem_singleton.1 hs ▸ hlt) (acyclic_adjacency hv) heq hp

theorem ancestry?_eq_none {id : NodeId} (h : g.node? id = none) : g.ancestry? id = none := by
  have hplace : g.adjacency.indexOf? id = none := by
    refine Adjacency.lastIndex?_eq_none_iff.2 fun hmem => ?_
    have hsome := node?_isSome_iff.2 hmem
    rw [h] at hsome
    cases hsome
  simp [ ancestry?, hplace]

end Graph
end TypedFlow
