import Mathlib.Order.Basic
import TypedFlow.Pipeline.Edit
import TypedFlow.Proofs.Pipeline.Typing

/-!
# Changes of a graph

Each change keeps a graph valid and reaches only what is downstream of where it happens, so that
`coherent_forget` restores the cache after it. Changes that only take away share `Valid.shrink`; a
new edge must join the graph.
-/
namespace TypedFlow
open Relation (ReflTransGen TransGen)

namespace Entries
variable {α : Type}

theorem get?_filter (entries : Entries α) (keep : String → Bool) (name : String) :
    get? (entries.filter fun entry => keep entry.1) name =
      if keep name then get? entries name else none := by
  induction entries with
  | nil => simp [get?_nil]
  | cons entry entries ih =>
    rw [List.filter_cons]
    by_cases hname : entry.1 = name
    · subst hname
      by_cases hk : keep entry.1
      · rw [if_pos hk, if_pos hk, get?_cons, get?_cons, if_pos rfl, if_pos rfl]
      · rw [if_neg hk, ih, if_neg hk, if_neg hk]
    · by_cases hk : keep entry.1
      · rw [if_pos hk, get?_cons, if_neg hname, ih, get?_cons, if_neg hname]
      · rw [if_neg hk, ih, get?_cons, if_neg hname]

end Entries

/-- An edge has both its ends in a graph, closes no cycle there, and finds room. -/
structure Edge.Joins (g : Graph) (e : Edge) : Prop where
  attached : e.Attached g
  acyclic : ¬ ReflTransGen g.Feeds e.target e.source
  room : ∀ socket, g.input? e.target e.targetSocket = some socket →
    (g.connections e.target e.targetSocket).length < g.arityOf socket

namespace Graph
variable {g g' : Graph}

theorem feeds_mono (h : ∀ e ∈ g'.edges, e ∈ g.edges) {a b : NodeId} (hf : g'.Feeds a b) :
    g.Feeds a b := by
  obtain ⟨e, he, hs, ht⟩ := hf
  exact ⟨e, h e he, hs, ht⟩

theorem acyclic_mono (h : ∀ e ∈ g'.edges, e ∈ g.edges) (ha : g.Acyclic) : g'.Acyclic :=
  fun id hc => ha id (TransGen.mono (fun _ _ hf => feeds_mono h hf) id id hc)

/-- A graph that has lost edges, while the sockets that carry the others are as they were. -/
theorem Valid.shrink (hv : g.Valid) (hconfig : g'.config = g.config)
    (hnext : g'.nextEdge = g.nextEdge) (hedges : g'.edges.Sublist g.edges)
    (hnodes : (g'.nodes.map (·.id)).Nodup) (hattached : ∀ e ∈ g'.edges, e.toEdge.Attached g')
    (hinput : ∀ id i socket, g'.input? id i = some socket → g.input? id i = some socket) :
    g'.Valid where
  nodes_nodup := hnodes
  edges_ascending := hv.edges_ascending.sublist (hedges.map _)
  edge_lt e he := by
    rw [hnext]
    exact hv.edge_lt e (hedges.subset he)
  attached := hattached
  acyclic := acyclic_mono (fun _ he => hedges.subset he) hv.acyclic
  arity id i socket hs := by
    have harity : g'.arityOf socket = g.arityOf socket := by rw [arityOf, arityOf, hconfig]
    rw [harity]
    exact Nat.le_trans ((hedges.filter _).filter _).length_le
      (hv.arity id i socket (hinput id i socket hs))

/-- What keeps its place among the nodes keeps its edges attached. -/
theorem attached_congr {e : Edge} (h : e.Attached g) (hs : g'.node? e.source = g.node? e.source)
    (ht : g'.node? e.target = g.node? e.target) : e.Attached g' := by
  refine ⟨?_, ?_, h.ne⟩
  · simp only [Edge.HasSource]
    rw [hs]
    exact h.source
  · simp only [Edge.HasTarget]
    rw [ht]
    exact h.target

section Nodes

theorem node?_appendNode_of_some (node : Node) {id : NodeId} {found : Node}
    (h : g.node? id = some found) : (g.appendNode node).node? id = some found := by
  simp only [node?] at h ⊢
  simp [appendNode, List.find?_append, h]

theorem valid_appendNode (hv : g.Valid) {node : Node} (hnew : g.node? node.id = none) :
    (g.appendNode node).Valid where
  nodes_nodup := by
    have hnot : node.id ∉ g.nodes.map (·.id) := fun hm => by
      have hsome := node?_isSome_iff.2 hm
      rw [hnew] at hsome
      cases hsome
    rw [appendNode, List.map_append, List.nodup_append]
    refine ⟨hv.nodes_nodup, List.nodup_singleton _, ?_⟩
    rintro a ha b hb rfl
    rw [List.mem_singleton.1 hb] at ha
    exact hnot ha
  edges_ascending := hv.edges_ascending
  edge_lt := hv.edge_lt
  attached e he := by
    obtain ⟨source, hs, -⟩ := (hv.attached e he).source
    obtain ⟨target, ht, -⟩ := (hv.attached e he).target
    exact attached_congr (hv.attached e he) (by rw [hs, node?_appendNode_of_some node hs])
      (by rw [ht, node?_appendNode_of_some node ht])
  acyclic := hv.acyclic
  arity id i socket hs := by
    by_cases hid : (g.node? id).isSome
    · obtain ⟨found, hf⟩ := Option.isSome_iff_exists.1 hid
      refine hv.arity id i socket ?_
      simp only [input?] at hs ⊢
      rw [node?_appendNode_of_some node hf] at hs
      rw [hf]
      exact hs
    · -- Nothing is connected to a node that is not there yet.
      have hnone : (g.appendNode node).incoming id = [] := by
        refine List.filter_eq_nil_iff.2 fun e he htarget => hid ?_
        obtain rfl := eq_of_beq htarget
        exact isSome_target (hv.attached e he)
      simp [connections, hnone]

/-- What depends on existing nodes only does not see a new one. -/
theorem agreeOn_appendNode (hv : g.Valid) (node : Node) :
    AgreeOn (fun id => (g.node? id).isSome) g (g.appendNode node) where
  scope := rfl
  config := rfl
  node id hid := by
    obtain ⟨found, hfound⟩ := Option.isSome_iff_exists.1 hid
    rw [node?_appendNode_of_some node hfound, hfound]
  incoming _ _ := rfl
  source _ _ e he := isSome_source (hv.attached e (mem_incoming.1 he).1)

theorem coherent_appendNode (hv : g.Valid) (node : Node) {cache : TypeCache}
    (hc : g.Coherent cache) : (g.appendNode node).Coherent cache := by
  intro id types hget
  have htyped := hc id types hget
  obtain ⟨found, hfound⟩ := htyped.exists_node
  exact htyped.congr (agreeOn_appendNode hv node) (isSome_of_node? hfound)

theorem node?_eraseNode {id a : NodeId} (h : a ≠ id) : (g.eraseNode id).node? a = g.node? a := by
  simp only [node?, eraseNode]
  rw [List.find?_filter]
  congr 1
  funext node
  by_cases ha : node.id = a
  · simp [ha, h]
  · simp [ha]

theorem mem_edges_eraseNode {id : NodeId} {e : CommittedEdge} :
    e ∈ (g.eraseNode id).edges ↔ e ∈ g.edges ∧ e.source ≠ id ∧ e.target ≠ id := by
  simp [eraseNode, CommittedEdge.touches]

theorem valid_eraseNode (hv : g.Valid) (id : NodeId) : (g.eraseNode id).Valid := by
  refine hv.shrink rfl rfl List.filter_sublist (hv.nodes_nodup.sublist
    (List.filter_sublist.map _)) ?_ ?_
  · intro e he
    obtain ⟨hmem, hs, ht⟩ := mem_edges_eraseNode.1 he
    exact attached_congr (hv.attached e hmem) (node?_eraseNode hs) (node?_eraseNode ht)
  · intro a i socket hs
    by_cases ha : a = id
    · subst ha
      have hnone : (g.eraseNode a).node? a = none := by
        simp [node?, eraseNode]
      simp [input?, hnone] at hs
    · simp only [input?] at hs ⊢
      rwa [node?_eraseNode ha] at hs

theorem node?_setData {id a : NodeId} (data : NodeData) :
    (g.setData id data).node? a =
      (g.node? a).map fun node => if node.id == id then { node with data } else node := by
  simp only [node?, setData]
  rw [List.find?_map]
  congr 2
  funext node
  simp only [Function.comp_apply]
  split <;> rfl

theorem node?_setData_of_ne {id a : NodeId} (data : NodeData) (h : a ≠ id) :
    (g.setData id data).node? a = g.node? a := by
  rw [node?_setData]
  cases hnode : g.node? a with
  | none => rfl
  | some node =>
    have hid : node.id ≠ id := (mem_nodes_of_node? hnode).2 ▸ h
    simp [hid]

theorem valid_setData (hv : g.Valid) (id : NodeId) (data : NodeData) :
    (g.setData id data).Valid := by
  have hids : (g.setData id data).nodes.map (·.id) = g.nodes.map (·.id) := by
    simp only [setData, List.map_map]
    refine List.map_congr_left fun node _ => ?_
    simp only [Function.comp_apply]
    split <;> rfl
  have hsockets : ∀ a node, g.node? a = some node → ∃ node', (g.setData id data).node? a =
      some node' ∧ node'.inputs = node.inputs ∧ node'.outputs = node.outputs := by
    intro a node hnode
    rw [node?_setData, hnode, Option.map_some]
    refine ⟨_, rfl, ?_⟩
    split <;> exact ⟨rfl, rfl⟩
  refine hv.shrink rfl rfl (List.Sublist.refl _) (hids ▸ hv.nodes_nodup) ?_ ?_
  · intro e he
    obtain ⟨⟨source, hs, hsocket⟩, ⟨target, ht, htsocket⟩, hne⟩ := hv.attached e he
    obtain ⟨source', hs', -, hout⟩ := hsockets _ _ hs
    obtain ⟨target', ht', hin, -⟩ := hsockets _ _ ht
    exact ⟨⟨source', hs', hout ▸ hsocket⟩, ⟨target', ht', hin ▸ htsocket⟩, hne⟩
  · intro a i socket h
    cases hnode : g.node? a with
    | none =>
      simp [input?, node?_setData, hnode] at h
    | some node =>
      obtain ⟨node', hnode', hin, -⟩ := hsockets a node hnode
      simp only [input?, hnode', hnode, Option.bind_some] at h ⊢
      rwa [hin] at h

end Nodes

section Edges

theorem edge?_eq_some {id : Nat} {e : CommittedEdge} (h : g.edge? id = some e) :
    e ∈ g.edges ∧ e.id = id := by
  have hp := List.find?_some h
  exact ⟨List.mem_of_find?_eq_some h, by simpa using hp⟩

theorem Valid.edge_ext (hv : g.Valid) {e e' : CommittedEdge} (he : e ∈ g.edges)
    (he' : e' ∈ g.edges) (h : e.id = e'.id) : e = e' :=
  List.inj_on_of_nodup_map (hv.edges_ascending.imp (fun h => Nat.ne_of_lt h)) he he' h

theorem valid_eraseEdge (hv : g.Valid) (id : Nat) : (g.eraseEdge id).Valid :=
  hv.shrink rfl rfl List.filter_sublist hv.nodes_nodup
    (fun e he => attached_congr (hv.attached e (List.mem_of_mem_filter he)) rfl rfl)
    fun _ _ _ h => h

theorem valid_noEdges (hv : g.Valid) : Valid { g with edges := [] } :=
  hv.shrink rfl rfl (List.nil_sublist _) hv.nodes_nodup (fun _ he => absurd he List.not_mem_nil)
    fun _ _ _ h => h

variable {e : CommittedEdge} {edges : List CommittedEdge}

theorem perm_insertEdge (h : e.id ∉ edges.map (·.id)) : (insertEdge e edges).Perm (e :: edges) := by
  induction edges with
  | nil => exact .refl _
  | cons other edges ih =>
    simp only [List.map_cons, List.mem_cons, not_or] at h
    simp only [insertEdge]
    split
    · exact .refl _
    · rw [if_neg h.1]
      exact ((ih h.2).cons other).trans (.swap e other edges)

theorem insertEdge_ascending (ha : (edges.map (·.id)).Pairwise (· < ·)) :
    ((insertEdge e edges).map (·.id)).Pairwise (· < ·) ∧
      ∀ i ∈ (insertEdge e edges).map (·.id), i = e.id ∨ i ∈ edges.map (·.id) := by
  induction edges with
  | nil => simp [insertEdge]
  | cons other edges ih =>
    rw [List.map_cons, List.pairwise_cons] at ha
    obtain ⟨hother, hrest⟩ := ha
    obtain ⟨hp, hmem⟩ := ih hrest
    simp only [insertEdge]
    split
    · rename_i hlt
      refine ⟨?_, by simp⟩
      rw [List.map_cons, List.map_cons, List.pairwise_cons, List.pairwise_cons]
      refine ⟨?_, hother, hrest⟩
      intro i hi
      rcases List.mem_cons.1 hi with rfl | hi
      · exact hlt
      · exact Nat.lt_trans hlt (hother i hi)
    · split
      · rename_i heq
        refine ⟨?_, by simp [heq]⟩
        rw [List.map_cons, heq, List.pairwise_cons]
        exact ⟨hother, hrest⟩
      · rename_i hnlt hne
        constructor
        · rw [List.map_cons, List.pairwise_cons]
          refine ⟨fun i hi => ?_, hp⟩
          rcases hmem i hi with rfl | hi
          · omega
          · exact hother i hi
        · intro i hi
          rw [List.map_cons] at hi
          rcases List.mem_cons.1 hi with rfl | hi
          · exact .inr List.mem_cons_self
          · exact (hmem i hi).imp id (List.mem_cons_of_mem _)

theorem filter_insertEdge {p : CommittedEdge → Bool} (h : e.id ∉ edges.map (·.id)) (hp : p e = false) :
    (insertEdge e edges).filter p = edges.filter p := by
  induction edges with
  | nil => simp [insertEdge, hp]
  | cons other edges ih =>
    simp only [List.map_cons, List.mem_cons, not_or] at h
    simp only [insertEdge]
    split
    · simp [hp]
    · rw [if_neg h.1, List.filter_cons, List.filter_cons, ih h.2]

theorem insertEdge_of_lt (h : ∀ other ∈ edges, other.id < e.id) :
    insertEdge e edges = edges ++ [e] := by
  induction edges with
  | nil => rfl
  | cons other edges ih =>
    have hlt := h other List.mem_cons_self
    simp only [insertEdge]
    rw [if_neg (by omega), if_neg (by omega), ih fun o ho => h o (List.mem_cons_of_mem other ho)]
    rfl

theorem feeds_withEdge_iff (h : e.id ∉ g.edges.map (·.id)) {a b : NodeId} :
    (g.withEdge e).Feeds a b ↔ g.Feeds a b ∨ a = e.source ∧ b = e.target := by
  have hmem : ∀ c, c ∈ (g.withEdge e).edges ↔ c = e ∨ c ∈ g.edges := fun c => by
    rw [withEdge, (perm_insertEdge h).mem_iff, List.mem_cons]
  constructor
  · intro hh
    obtain ⟨c, hc, rfl, rfl⟩ := hh
    rcases (hmem c).1 hc with rfl | hc
    · exact .inr ⟨rfl, rfl⟩
    · exact .inl ⟨c, hc, rfl, rfl⟩
  · intro hh
    rcases hh with ⟨c, hc, hs, ht⟩ | ⟨rfl, rfl⟩
    · exact ⟨c, (hmem c).2 (.inr hc), hs, ht⟩
    · exact ⟨e, (hmem e).2 (.inl rfl), rfl, rfl⟩

/-- A way that may use one more edge either does not, or reaches its source and leaves its target. -/
theorem transGen_withEdge (h : e.id ∉ g.edges.map (·.id)) {a b : NodeId}
    (hab : TransGen (g.withEdge e).Feeds a b) :
    TransGen g.Feeds a b ∨ ReflTransGen g.Feeds a e.source ∧ ReflTransGen g.Feeds e.target b := by
  induction hab with
  | single hstep =>
    rcases (feeds_withEdge_iff h).1 hstep with hstep | ⟨rfl, rfl⟩
    · exact .inl (.single hstep)
    · exact .inr ⟨.refl, .refl⟩
  | tail _ hstep ih =>
    rcases (feeds_withEdge_iff h).1 hstep with hstep | ⟨rfl, rfl⟩
    · rcases ih with ih | ⟨hs, ht⟩
      · exact .inl (ih.tail hstep)
      · exact .inr ⟨hs, ht.tail hstep⟩
    · rcases ih with ih | ⟨hs, -⟩
      · exact .inr ⟨ih.to_reflTransGen, .refl⟩
      · exact .inr ⟨hs, .refl⟩

/-- One more edge closes a cycle exactly when its target already leads to its source. -/
theorem acyclic_withEdge_iff (h : e.id ∉ g.edges.map (·.id)) (ha : g.Acyclic) :
    (g.withEdge e).Acyclic ↔ ¬ ReflTransGen g.Feeds e.target e.source := by
  constructor
  · intro hacyclic hreach
    have hstep : (g.withEdge e).Feeds e.source e.target :=
      (feeds_withEdge_iff h).2 (.inr ⟨rfl, rfl⟩)
    have hreach' : ReflTransGen (g.withEdge e).Feeds e.target e.source :=
      ReflTransGen.mono (fun _ _ hf => (feeds_withEdge_iff h).2 (.inl hf)) _ _ hreach
    exact hacyclic e.source (.head' hstep hreach')
  · intro hnot id hc
    rcases transGen_withEdge h hc with hc | ⟨hs, ht⟩
    · exact ha id hc
    · exact hnot (ht.trans hs)

theorem incoming_withEdge_of_ne (h : e.id ∉ g.edges.map (·.id)) {id : NodeId} (hid : id ≠ e.target) :
    (g.withEdge e).incoming id = g.incoming id :=
  filter_insertEdge h (beq_eq_false_iff_ne.2 (Ne.symm hid))

theorem valid_withEdge (hv : g.Valid) (h : e.id ∉ g.edges.map (·.id)) (hlt : e.id < g.nextEdge)
    (hjoins : e.toEdge.Joins g) : (g.withEdge e).Valid where
  nodes_nodup := hv.nodes_nodup
  edges_ascending := (insertEdge_ascending hv.edges_ascending).1
  edge_lt c hc := by
    rcases List.mem_cons.1 ((perm_insertEdge h).mem_iff.1 hc) with rfl | hc
    · exact hlt
    · exact hv.edge_lt c hc
  attached c hc := by
    rcases List.mem_cons.1 ((perm_insertEdge h).mem_iff.1 hc) with rfl | hc
    · exact attached_congr hjoins.attached rfl rfl
    · exact attached_congr (hv.attached c hc) rfl rfl
  acyclic := (acyclic_withEdge_iff h hv.acyclic).2 hjoins.acyclic
  arity id i socket hs := by
    have hperm := (((perm_insertEdge h).filter (·.target == id)).filter (·.targetSocket == i)).length_eq
    have hold := hv.arity id i socket hs
    by_cases hat : e.target = id ∧ e.targetSocket = i
    · obtain ⟨rfl, rfl⟩ := hat
      have hlt := hjoins.room socket hs
      have hcons : ((e :: g.edges).filter (·.target == e.target)).filter
          (·.targetSocket == e.targetSocket) = e :: g.connections e.target e.targetSocket := by
        simp [connections, incoming]
      rw [hcons, List.length_cons] at hperm
      exact hperm.trans_le hlt
    · have hnot : ((e :: g.edges).filter (·.target == id)).filter (·.targetSocket == i) =
          (g.edges.filter (·.target == id)).filter (·.targetSocket == i) := by
        rw [List.filter_filter, List.filter_filter, List.filter_cons_of_neg]
        simpa [and_comm] using hat
      rw [hnot] at hperm
      exact hperm.trans_le hold

end Edges

section Reach
variable {start : NodeId}

/-- A change that only reaches what is downstream of a node. -/
theorem agreeOn_of_downstream (hv : g.Valid) (hscope : g'.scope = g.scope)
    (hconfig : g'.config = g.config)
    (hnode : ∀ id, id ∉ g.downstream start → g'.node? id = g.node? id)
    (hincoming : ∀ id, id ∉ g.downstream start → g'.incoming id = g.incoming id) :
    AgreeOn (· ∉ g.downstream start) g g' where
  scope := hscope
  config := hconfig
  node := hnode
  incoming := hincoming
  source id hid e he hsource := by
    -- What has a source downstream is downstream as well.
    obtain ⟨hmem, rfl⟩ := mem_incoming.1 he
    obtain ⟨hstart, hreach⟩ := (mem_downstream_iff hv).1 hsource
    exact hid ((mem_downstream_iff hv).2 ⟨hstart, hreach.tail ⟨e, hmem, rfl, rfl⟩⟩)

theorem mem_downstream_self (hv : g.Valid) (h : (g.node? start).isSome) :
    start ∈ g.downstream start :=
  (mem_downstream_iff hv).2 ⟨h, .refl⟩

theorem agreeOn_eraseNode (hv : g.Valid) {id : NodeId} (h : (g.node? id).isSome) :
    AgreeOn (· ∉ g.downstream id) g (g.eraseNode id) := by
  have hself := mem_downstream_self hv h
  refine agreeOn_of_downstream hv rfl rfl ?_ ?_
  · intro a ha
    exact node?_eraseNode fun heq => ha (heq ▸ hself)
  · intro a ha
    simp only [incoming, eraseNode]
    rw [List.filter_filter]
    refine List.filter_congr fun e he => ?_
    by_cases htarget : e.target = a
    · have hsource : e.source ≠ id := fun heq =>
        ha ((mem_downstream_iff hv).2 ⟨h, .single ⟨e, he, heq, htarget⟩⟩)
      have hne : a ≠ id := fun heq => ha (heq ▸ hself)
      simp [CommittedEdge.touches, htarget, hsource, hne]
    · simp [htarget]

theorem agreeOn_setData (hv : g.Valid) {id : NodeId} (h : (g.node? id).isSome) (data : NodeData) :
    AgreeOn (· ∉ g.downstream id) g (g.setData id data) := by
  have hself := mem_downstream_self hv h
  refine agreeOn_of_downstream hv rfl rfl ?_ fun _ _ => rfl
  intro a ha
  exact node?_setData_of_ne data fun heq => ha (heq ▸ hself)

theorem agreeOn_eraseEdge (hv : g.Valid) {e : CommittedEdge} (he : e ∈ g.edges) :
    AgreeOn (· ∉ g.downstream e.target) g (g.eraseEdge e.id) := by
  have hself := mem_downstream_self hv (isSome_target (hv.attached e he))
  refine agreeOn_of_downstream hv rfl rfl (fun _ _ => rfl) ?_
  intro a ha
  simp only [incoming, eraseEdge]
  rw [List.filter_filter]
  refine List.filter_congr fun other hother => ?_
  by_cases htarget : other.target = a
  · have hne : other.id ≠ e.id := by
      intro heq
      obtain rfl := hv.edge_ext hother he heq
      exact ha (htarget ▸ hself)
    simp [hne]
  · simp [htarget]

theorem agreeOn_withEdge (hv : g.Valid) {e : CommittedEdge} (h : e.id ∉ g.edges.map (·.id))
    (ht : (g.node? e.target).isSome) : AgreeOn (· ∉ g.downstream e.target) g (g.withEdge e) := by
  have hself := mem_downstream_self hv ht
  refine agreeOn_of_downstream hv rfl rfl (fun _ _ => rfl) ?_
  intro a ha
  exact incoming_withEdge_of_ne h fun heq => ha (heq ▸ hself)

/-- After such a change the cache is coherent again once it forgets what is downstream. -/
theorem coherent_forget (hagree : AgreeOn (· ∉ g.downstream start) g g') {cache : TypeCache}
    (hc : g.Coherent cache) :
    g'.Coherent (cache.filter fun entry => !(g.downstream start).contains entry.1) := by
  intro id types hget
  rw [Entries.get?_filter cache fun a => !(g.downstream start).contains a] at hget
  split at hget
  · rename_i hkeep
    exact (hc id types hget).congr hagree (by simpa using hkeep)
  · cases hget

end Reach

end Graph
end TypedFlow
