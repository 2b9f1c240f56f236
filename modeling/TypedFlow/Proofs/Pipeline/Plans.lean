import Mathlib.Data.List.Sort
import TypedFlow.Proofs.Pipeline.Runs
import TypedFlow.Proofs.Schedule.Paths

/-!
# Plans

The two plans of a valid graph: the execution order, in which every node comes after its sources,
and the routes, which lead along edges from a node without incoming edges to one without outgoing
edges. Along a route the place in the execution order ascends. So a route is part of the order, and
every node and every edge can be followed back to where a route begins and on to where it ends.
-/
namespace TypedFlow

namespace Graph
variable {g : Graph}

/-- A way through a graph that cannot be continued at either end. -/
structure IsRoute (g : Graph) (route : List NodeId) : Prop where
  first : ∃ id ∈ route.head?, (g.node? id).isSome ∧ ∀ e ∈ g.edges, e.target ≠ id
  follows : route.IsChain g.Feeds
  last : ∀ id ∈ route.getLast?, ∀ e ∈ g.edges, e.source ≠ id

section Order

/-- The place of a node in the execution order. -/
abbrev turn (g : Graph) (id : NodeId) : Nat := g.executionOrder.idxOf id

theorem turn_lt_of_feeds (hv : g.Valid) {a b : NodeId} (h : g.Feeds a b) : g.turn a < g.turn b := by
  obtain ⟨e, he, rfl, rfl⟩ := h
  exact idxOf_source_lt hv he

theorem isSome_of_feeds (hv : g.Valid) {a b : NodeId} (h : g.Feeds a b) :
    (g.node? a).isSome ∧ (g.node? b).isSome := by
  obtain ⟨e, he, rfl, rfl⟩ := h
  exact ⟨isSome_source (hv.attached e he), isSome_target (hv.attached e he)⟩

theorem turn_lt_length_of_feeds (hv : g.Valid) (a b : NodeId) (h : g.Feeds a b) :
    g.turn a < g.turn b ∧ g.turn b < g.executionOrder.length :=
  ⟨turn_lt_of_feeds hv h,
    List.idxOf_lt_length_iff.2 (mem_executionOrder_iff.2 (isSome_of_feeds hv h).2)⟩

theorem nodup_of_isChain (hv : g.Valid) {route : List NodeId} (h : route.IsChain g.Feeds) :
    route.Nodup :=
  Adjacency.nodup_of_isChain (turn_lt_length_of_feeds hv) h

theorem pairwise_executionOrder (hv : g.Valid) :
    g.executionOrder.Pairwise fun a b => g.turn a < g.turn b :=
  Adjacency.pairwise_idxOf_lt (nodup_executionOrder hv.nodes_nodup)

theorem sublist_executionOrder (hv : g.Valid) {route : List NodeId} (h : route.IsChain g.Feeds)
    (hnodes : ∀ id ∈ route, (g.node? id).isSome) : route.Sublist g.executionOrder := by
  have hanti : Std.Antisymm fun a b => g.turn a < g.turn b :=
    ⟨fun _ _ hab hba => absurd hab (Nat.lt_asymm hba)⟩
  have hsub : route.Subperm g.executionOrder :=
    List.subperm_of_subset (nodup_of_isChain hv h) fun id hid =>
      mem_executionOrder_iff.2 (hnodes id hid)
  exact List.sublist_of_subperm_of_pairwise hsub
    (Adjacency.pairwise_rank_lt (turn_lt_length_of_feeds hv) h)
    (pairwise_executionOrder hv)

theorem executionOrder_perm (hv : g.Valid) : g.executionOrder.Perm (g.nodes.map (·.id)) :=
  (List.perm_ext_iff_of_nodup (nodup_executionOrder hv.nodes_nodup) hv.nodes_nodup).2 fun _ =>
    mem_executionOrder_iff.trans node?_isSome_iff

end Order

section Continuation
variable (hv : g.Valid)
include hv

theorem isRoute_of_endToEnd {route : List NodeId} (h : Adjacency.EndToEnd g.Feeds route)
    {id : NodeId} (hmem : id ∈ route) (hid : (g.node? id).isSome) : g.IsRoute route where
  first := by
    obtain ⟨a, ha, hnode⟩ := Adjacency.exists_head_of_mem
      (fun a b (hfeeds : g.Feeds a b) => (isSome_of_feeds hv hfeeds).1) h.chain hmem hid
    exact ⟨a, ha, hnode, fun e he ht => h.first a ha e.source ⟨e, he, rfl, ht⟩⟩
  follows := h.chain
  last a ha e he hs := h.last a ha e.target ⟨e, he, hs, rfl⟩

theorem exists_route_of_node {id : NodeId} (hid : (g.node? id).isSome) :
    ∃ route, g.IsRoute route ∧ id ∈ route := by
  obtain ⟨route, h, hmem⟩ := Adjacency.exists_endToEnd_of_mem (turn_lt_length_of_feeds hv) id
  exact ⟨route, isRoute_of_endToEnd hv h hmem hid, hmem⟩

theorem exists_route_of_edge {e : CommittedEdge} (he : e ∈ g.edges) :
    ∃ route, g.IsRoute route ∧ [e.source, e.target] <:+: route := by
  have hfeeds : g.Feeds e.source e.target := ⟨e, he, rfl, rfl⟩
  obtain ⟨route, h, hpart⟩ :=
    Adjacency.exists_endToEnd_of_step (turn_lt_length_of_feeds hv) hfeeds
  exact ⟨route, isRoute_of_endToEnd hv h (hpart.subset List.mem_cons_self)
    (isSome_of_feeds hv hfeeds).1, hpart⟩

end Continuation

section Routes

def nodeAt (g : Graph) (i : Nat) : NodeId := g.adjacency.ids.getD i ""

theorem getElem?_nodeAt {i : Nat} (h : i < g.adjacency.size) :
    g.adjacency.ids[i]? = some (g.nodeAt i) := by
  have hlt : i < g.adjacency.ids.length := h
  simp [nodeAt, hlt]

theorem idsAt_eq_map {places : List Nat} (h : ∀ i ∈ places, i < g.adjacency.size) :
    g.adjacency.idsAt places = places.map g.nodeAt := by
  rw [Adjacency.idsAt, ← List.filterMap_eq_map]
  exact List.filterMap_congr fun i hi => getElem?_nodeAt (h i hi)

theorem feeds_nodeAt_iff (hv : g.Valid) {i j : Nat} (hi : i < g.adjacency.size)
    (hj : j < g.adjacency.size) :
    g.Feeds (g.nodeAt i) (g.nodeAt j) ↔ Adjacency.StepsTo g.adjacency.successors i j :=
  (mem_successors_place_iff hv.nodes_nodup (getElem?_nodeAt hi) (getElem?_nodeAt hj)).symm

theorem exists_nodeAt {id : NodeId} (h : (g.node? id).isSome) :
    ∃ i, i < g.adjacency.size ∧ g.nodeAt i = id := by
  obtain ⟨i, hi⟩ := exists_place h
  have hlt := lt_size_of_place hi
  exact ⟨i, hlt, Option.some.inj ((getElem?_nodeAt hlt).symm.trans hi)⟩

theorem predecessors_eq_nil_iff (hv : g.Valid) {i : Nat} (hi : i < g.adjacency.size) :
    g.adjacency.predecessors i = [] ↔ ∀ e ∈ g.edges, e.target ≠ g.nodeAt i := by
  rw [List.eq_nil_iff_forall_not_mem]
  constructor
  · intro hnone e he ht
    obtain ⟨j, hj, hs⟩ := exists_nodeAt (isSome_source (hv.attached e he))
    exact hnone j (adjacency_indexed.mirror.1
      ((feeds_nodeAt_iff hv hj hi).1 ⟨e, he, hs.symm, ht⟩))
  · intro hnone j hj
    have hstep := adjacency_indexed.mirror.2 hj
    obtain ⟨e, he, -, ht⟩ := (feeds_nodeAt_iff hv (adjacency_indexed.predecessor_lt hj) hi).2 hstep
    exact hnone e he ht

theorem successors_eq_nil_iff (hv : g.Valid) {i : Nat} (hi : i < g.adjacency.size) :
    g.adjacency.successors i = [] ↔ ∀ e ∈ g.edges, e.source ≠ g.nodeAt i := by
  rw [List.eq_nil_iff_forall_not_mem]
  constructor
  · intro hnone e he hs
    obtain ⟨j, hj, ht⟩ := exists_nodeAt (isSome_target (hv.attached e he))
    exact hnone j ((feeds_nodeAt_iff hv hi hj).1 ⟨e, he, hs, ht.symm⟩)
  · intro hnone j hj
    obtain ⟨e, he, hs, -⟩ := (feeds_nodeAt_iff hv hi (adjacency_indexed.successor_lt hj)).2 hj
    exact hnone e he hs

/-- Routes are paths of the index, with nodes in place of places. -/
theorem isRoute_map_iff (hv : g.Valid) {places : List Nat} (h : ∀ i ∈ places, i < g.adjacency.size) :
    g.IsRoute (places.map g.nodeAt) ↔ g.adjacency.IsPath places := by
  have hchain : (places.map g.nodeAt).IsChain g.Feeds ↔
      places.IsChain (Adjacency.StepsTo g.adjacency.successors) :=
    (List.isChain_map g.nodeAt).trans (List.IsChain.iff_of_mem_imp fun i j hi hj =>
      feeds_nodeAt_iff hv (h i hi) (h j hj))
  constructor
  · rintro ⟨⟨_, hhead, -, hfirst⟩, hfollows, hlast⟩
    rw [List.head?_map] at hhead
    obtain ⟨i, hi, rfl⟩ := Option.mem_map.1 hhead
    have hlt := h i (List.mem_of_head? hi)
    refine ⟨⟨i, hi, hlt, (predecessors_eq_nil_iff hv hlt).2 hfirst⟩, hchain.1 hfollows,
      (nodup_of_isChain hv hfollows).of_map _, fun j hj => ?_⟩
    refine (successors_eq_nil_iff hv (h j (List.mem_of_getLast? hj))).2 (hlast _ ?_)
    rw [List.getLast?_map]
    exact Option.mem_map_of_mem _ hj
  · rintro ⟨⟨i, hi, hlt, hroot⟩, hfollows, -, hout⟩
    refine ⟨⟨g.nodeAt i, ?_, isSome_of_place (getElem?_nodeAt hlt),
      (predecessors_eq_nil_iff hv hlt).1 hroot⟩, hchain.2 hfollows, fun id hid => ?_⟩
    · rw [List.head?_map]
      exact Option.mem_map_of_mem _ hi
    · rw [List.getLast?_map] at hid
      obtain ⟨j, hj, rfl⟩ := Option.mem_map.1 hid
      exact (successors_eq_nil_iff hv (h j (List.mem_of_getLast? hj))).1 (hout j hj)

theorem IsRoute.isSome (hv : g.Valid) {route : List NodeId} (h : g.IsRoute route) :
    ∀ id ∈ route, (g.node? id).isSome := by
  obtain ⟨⟨id, hhead, hnode, -⟩, hchain, -⟩ := h
  obtain ⟨rest, rfl⟩ := List.head?_eq_some_iff.1 hhead
  clear hhead
  induction rest generalizing id with
  | nil => exact fun a ha => List.mem_singleton.1 ha ▸ hnode
  | cons next rest ih =>
    obtain ⟨hfeeds, hchain⟩ := List.isChain_cons_cons.1 hchain
    exact List.forall_mem_cons.2 ⟨hnode, ih next (isSome_of_feeds hv hfeeds).2 hchain⟩

theorem mem_pathDecomposition_iff (hv : g.Valid) {route : List NodeId} :
    route ∈ g.pathDecomposition ↔ g.IsRoute route := by
  simp only [pathDecomposition, List.mem_map, Adjacency.mem_paths_iff adjacency_indexed]
  constructor
  · rintro ⟨places, hplaces, rfl⟩
    have hlt := hplaces.lt adjacency_indexed
    rw [idsAt_eq_map hlt]
    exact (isRoute_map_iff hv hlt).2 hplaces
  · intro hroute
    -- A route is put together again from the places of its nodes.
    have hplace : ∀ id ∈ route, ∃ i, i < g.adjacency.size ∧ g.nodeAt i = id := fun id hid =>
      exists_nodeAt (hroute.isSome hv id hid)
    choose! place hlt hat using hplace
    have hlts : ∀ i ∈ route.map place, i < g.adjacency.size := List.forall_mem_map.2 hlt
    have hmap : (route.map place).map g.nodeAt = route := by
      rw [List.map_map]
      exact (List.map_congr_left hat).trans (List.map_id' route)
    refine ⟨route.map place, (isRoute_map_iff hv hlts).1 ?_, ?_⟩
    · rwa [hmap]
    · rw [idsAt_eq_map hlts, hmap]

theorem indexOf?_nodeAt (hv : g.Valid) {i : Nat} (h : i < g.adjacency.size) :
    g.adjacency.indexOf? (g.nodeAt i) = some i :=
  (indexOf?_eq_some_iff hv.nodes_nodup).2 (getElem?_nodeAt h)

theorem nodup_pathDecomposition (hv : g.Valid) : g.pathDecomposition.Nodup := by
  refine (Adjacency.nodup_paths adjacency_indexed).map_on fun places hplaces others hothers heq => ?_
  have hback : ∀ p ∈ g.adjacency.paths, (g.adjacency.idsAt p).filterMap g.adjacency.indexOf? = p := by
    intro p hp
    have hlt := ((Adjacency.mem_paths_iff adjacency_indexed).1 hp).lt adjacency_indexed
    rw [idsAt_eq_map hlt, List.filterMap_map]
    exact (List.filterMap_congr fun i hi => indexOf?_nodeAt hv (hlt i hi)).trans List.filterMap_some
  rw [← hback places hplaces, ← hback others hothers, heq]

end Routes

end Graph

section Plans
variable {scope : Scope} {config : GraphConfig} {kinds : List NodeKind}
  {aliases : List (String × String)} {g : Graph}

/-- After every run, the execution order has every node once and every source before its target; the
decomposition has every route once and nothing else, and so every node and both ends of every edge,
one behind the other, on some path; and each path is part of the execution order. -/
theorem plans_cover_graph (h : Graph.create scope config kinds aliases = .ok g)
    (actions : List Action) :
    let s := (Session.new g).run actions
    s.graph.executionOrder.Perm (s.graph.nodes.map (·.id)) ∧ s.graph.executionOrder.Nodup ∧
    (∀ e ∈ s.graph.edges,
      s.graph.executionOrder.idxOf e.source < s.graph.executionOrder.idxOf e.target) ∧
    s.graph.pathDecomposition.Nodup ∧
    (∀ path, path ∈ s.graph.pathDecomposition ↔ s.graph.IsRoute path) ∧
    (∀ node ∈ s.graph.nodes, ∃ path ∈ s.graph.pathDecomposition, node.id ∈ path) ∧
    (∀ e ∈ s.graph.edges, ∃ path ∈ s.graph.pathDecomposition, [e.source, e.target] <:+: path) ∧
    ∀ path ∈ s.graph.pathDecomposition, path.Sublist s.graph.executionOrder := by
  intro s
  have hv : s.graph.Valid := ((Session.sound_new h).run actions).valid
  have hroutes : ∀ path, path ∈ s.graph.pathDecomposition ↔ s.graph.IsRoute path :=
    fun _ => Graph.mem_pathDecomposition_iff hv
  refine ⟨Graph.executionOrder_perm hv, Graph.nodup_executionOrder hv.nodes_nodup,
    fun _ => Graph.idxOf_source_lt hv, Graph.nodup_pathDecomposition hv, hroutes, ?_, ?_, ?_⟩
  · intro node hnode
    obtain ⟨path, hpath, hmem⟩ := Graph.exists_route_of_node hv
      (Graph.node?_isSome_iff.2 (List.mem_map_of_mem hnode))
    exact ⟨path, (hroutes path).2 hpath, hmem⟩
  · intro e he
    obtain ⟨path, hpath, hpart⟩ := Graph.exists_route_of_edge hv he
    exact ⟨path, (hroutes path).2 hpath, hpart⟩
  · intro path hpath
    have hroute := (hroutes path).1 hpath
    exact Graph.sublist_executionOrder hv hroute.follows (hroute.isSome hv)

/-! A mixer takes three connections. Two relays lead to it from one switch, one of them twice. -/

def mixerKind : NodeKind :=
  ⟨"mixer", .transform, [⟨"in", none, some 3⟩], [⟨"out", some (.name "Input0")⟩]⟩

def mixerGraph : Graph :=
  ⟨[], [("mixer", mixerKind), ("relay", relayKind), ("switch", switchKind)], .default, [], [], 0⟩

theorem create_mixerGraph :
    Graph.create [] .default [switchKind, relayKind, mixerKind] [] = .ok mixerGraph := rfl

def diamond : List Action :=
  [.addNode "m" "mixer" [], .addNode "a" "relay" [], .addNode "b" "relay" [],
    .addNode "s" "switch" [], .addEdge ⟨"s", 0, "a", 0⟩, .addEdge ⟨"s", 0, "b", 0⟩,
    .addEdge ⟨"b", 0, "m", 0⟩, .addEdge ⟨"a", 0, "m", 0⟩, .addEdge ⟨"a", 0, "m", 0⟩]

theorem plans_cover_diamond :
    let s := (Session.new mixerGraph).run diamond
    s.graph.edges.length = 5 ∧ s.graph.executionOrder = ["s", "b", "a", "m"] ∧
      s.graph.pathDecomposition = [["s", "a", "m"], ["s", "b", "m"]] ∧
      ∀ path ∈ s.graph.pathDecomposition, path.Sublist s.graph.executionOrder := by
  intro s
  obtain ⟨-, -, -, -, -, -, -, hsublist⟩ := plans_cover_graph create_mixerGraph diamond
  exact ⟨by decide +kernel, by decide +kernel, by decide +kernel, hsublist⟩

end Plans
end TypedFlow
