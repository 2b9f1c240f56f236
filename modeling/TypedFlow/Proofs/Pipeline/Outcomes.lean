import TypedFlow.Proofs.Pipeline.Revalidation

/-!
# Outcomes of edits

Each edit in cases: it fails and leaves the graph as it was, or it succeeds, and then the report it
gives says where every edge has gone. A load fails in its checks only; after them no node is refused,
and each edge of the definition is either committed under the next id or rejected.
-/
namespace TypedFlow

/-- The edges that have left the graph. -/
def Revalidation.gone (r : Revalidation) : List CommittedEdge := r.removed ++ r.dropped.map (·.edge)

/-- Some edges, in order, are the committed and the rejected ones, each in order. -/
inductive Splits : List Edge → List CommittedEdge → List RejectedEdge → Prop
  | nil : Splits [] [] []
  | committed {edges : List Edge} {added : List CommittedEdge} {rejected : List RejectedEdge}
      (e : CommittedEdge) : Splits edges added rejected →
        Splits (e.toEdge :: edges) (e :: added) rejected
  | rejected {edges : List Edge} {added : List CommittedEdge} {rejected : List RejectedEdge}
      (e : RejectedEdge) : Splits edges added rejected →
        Splits (e.edge :: edges) added (e :: rejected)

namespace Graph

/-- A node as its definition says, of a kind that the graph has. -/
def Instantiates (g : Graph) (d : NodeDefinition) (node : Node) : Prop :=
  ∃ kind, g.kinds.get? d.kind = some kind ∧ node = kind.instantiate d.id d.data

/-- Edges have been added under the next ids. -/
structure Extends (g g' : Graph) (edges : List Edge) (report : LoadReport)
    (added : List CommittedEdge) : Prop where
  graph_eq : g' = { g with edges := g.edges ++ added, nextEdge := g.nextEdge + added.length }
  ids : added.map (·.id) = List.range' g.nextEdge added.length
  committed : report.committed = added.map (·.id)
  splits : Splits edges added report.rejected

/-- All nodes of a definition are there, in order and behind the old ones, and each of its edges is
committed or reported. -/
def Loaded (g g' : Graph) (d : PipelineDefinition) (report : LoadReport) : Prop :=
  ∃ nodes edges, List.Forall₂ g.Instantiates d.nodes nodes ∧
    Extends { g with nodes := g.nodes ++ nodes } g' d.edges report edges

theorem Extends.nil (g : Graph) : g.Extends g [] ⟨[], []⟩ [] := ⟨by simp, rfl, rfl, .nil⟩

theorem Extends.committed_cons {g g' : Graph} {edges : List Edge} {report : LoadReport}
    {added : List CommittedEdge} {e : Edge} (h : (g.plus e).Extends g' edges report added) :
    g.Extends g' (e :: edges) { report with committed := g.nextEdge :: report.committed }
      ({ e with id := g.nextEdge } :: added) where
  graph_eq := by
    rw [h.graph_eq, plus]
    simp [Nat.add_comm, Nat.add_left_comm]
  ids := by
    rw [List.map_cons, h.ids, List.length_cons, List.range'_succ]
    rfl
  committed := congrArg _ h.committed
  splits := .committed ⟨e, g.nextEdge⟩ h.splits

theorem Extends.rejected_cons {g g' : Graph} {edges : List Edge} {report : LoadReport}
    {added : List CommittedEdge} (h : g.Extends g' edges report added) (e : RejectedEdge) :
    g.Extends g' (e.edge :: edges) { report with rejected := e :: report.rejected } added :=
  ⟨h.graph_eq, h.ids, h.committed, .rejected e h.splits⟩

end Graph

namespace Edit
variable {config : GraphConfig} {s : Session}
open Session (Sound)

theorem result_get_bind {α : Type} (f : Session → Edit α) (s : Session) :
    s.result (get >>= f) = s.result (f s) := rfl

theorem result_set_bind {α : Type} (s' : Session) (f : PUnit → Edit α) (s : Session) :
    s.result (set s' >>= f) = s'.result (f ⟨⟩) := rfl

theorem addNode_cases (s : Session) (id : NodeId) (kind : String) (data : NodeData) :
    (∃ reason, s.result (addNode id kind data) = .error reason ∧
      s.after (addNode id kind data) = s) ∨
    ∃ k, s.graph.kinds.get? kind = some k ∧ s.result (addNode id kind data) = .ok () ∧
      s.after (addNode id kind data) =
        { s with graph := s.graph.appendNode (k.instantiate id data) } := by
  simp only [addNode]
  rw [result_get_bind, after_get_bind]
  by_cases hnew : (s.graph.node? id).isSome
  · rw [if_pos hnew]
    exact .inl ⟨_, rfl, rfl⟩
  · rw [if_neg hnew]
    cases hkind : s.graph.kinds.get? kind with
    | none => exact .inl ⟨_, rfl, rfl⟩
    | some k => exact .inr ⟨k, rfl, rfl, rfl⟩

theorem addNode_of_known {id : NodeId} {kind : String} {data : NodeData} {k : NodeKind}
    (hnew : s.graph.node? id = none) (hkind : s.graph.kinds.get? kind = some k) :
    s.result (addNode id kind data) = .ok () ∧
      s.after (addNode id kind data) =
        { s with graph := s.graph.appendNode (k.instantiate id data) } := by
  simp only [addNode]
  rw [result_get_bind, after_get_bind, hnew, hkind]
  exact ⟨rfl, rfl⟩

theorem addEdge_cases (hv : s.graph.Valid) (e : Edge) :
    (∃ reason, s.result (addEdge e) = .error reason ∧ (s.after (addEdge e)).graph = s.graph) ∨
    s.result (addEdge e) = .ok s.graph.nextEdge ∧
      (s.after (addEdge e)).graph = s.graph.plus e := by
  cases h : (s.graph.checkEdge e).answer s.cache with
  | error reason =>
    obtain ⟨hresult, hafter⟩ := addEdge_of_error h
    exact .inl ⟨reason, hresult, by rw [hafter]; rfl⟩
  | ok _ =>
    obtain ⟨hresult, hafter⟩ := addEdge_of_ok h
    refine .inr ⟨hresult, ?_⟩
    rw [hafter]
    exact Session.graph_committed hv e

theorem tryAddEdge_cases (hv : s.graph.Valid) (e : Edge) :
    (∃ reason, s.result (tryAddEdge e) = .ok (.error reason) ∧
      (s.after (tryAddEdge e)).graph = s.graph) ∨
    s.result (tryAddEdge e) = .ok (.ok s.graph.nextEdge) ∧
      (s.after (tryAddEdge e)).graph = s.graph.plus e := by
  simp only [tryAddEdge, Session.result, Session.after]
  rcases addEdge_cases hv e with ⟨reason, hresult, hafter⟩ | ⟨hresult, hafter⟩
  · have herror : s.result (Except.ok <$> addEdge e : Edit (Except GraphError Nat)) =
        .error reason := result_bind_error hresult
    rw [run_tryCatch_error herror]
    refine .inl ⟨reason, rfl, ?_⟩
    change (s.after (Except.ok <$> addEdge e : Edit (Except GraphError Nat))).graph = s.graph
    rw [← hafter]
    exact congrArg (·.graph) (after_bind_pure Except.ok s)
  · have hok : s.result (Except.ok <$> addEdge e : Edit (Except GraphError Nat)) =
        .ok (.ok s.graph.nextEdge) := result_bind_ok hresult
    rw [run_tryCatch_ok hok]
    refine .inr ⟨hok, ?_⟩
    rw [← hafter]
    exact congrArg (·.graph) (after_bind_pure Except.ok s)

theorem applyEdge_cases (hv : s.graph.Valid) (e : Edge) :
    (∃ reason, s.result (applyEdge e) = .ok (.rejected reason) ∧
      (s.after (applyEdge e)).graph = s.graph) ∨
    s.result (applyEdge e) = .ok (.committed s.graph.nextEdge) ∧
      (s.after (applyEdge e)).graph = s.graph.plus e := by
  simp only [applyEdge]
  rcases tryAddEdge_cases hv e with ⟨reason, hresult, hafter⟩ | ⟨hresult, hafter⟩
  · rw [result_bind_ok hresult, after_bind_ok hresult]
    exact .inl ⟨reason, rfl, hafter⟩
  · rw [result_bind_ok hresult, after_bind_ok hresult]
    exact .inr ⟨rfl, hafter⟩

section Changes

/-- A revalidation never fails and takes nothing but edges, which it reports. -/
theorem revalidate_outcome (hv : s.graph.Valid) :
    ∃ dropped, s.result revalidate = .ok ⟨[], dropped⟩ ∧
      (s.after revalidate).graph = { s.graph with edges := (s.after revalidate).graph.edges } ∧
      ((s.after revalidate).graph.edges ++ dropped.map (·.edge)).Perm s.graph.edges := by
  obtain ⟨-, -, hr⟩ := Session.revalidate_spec hv s.cache
  exact ⟨s.revalidate.2, rfl, hr.graph_eq, hr.accounted⟩

theorem afterChange_outcome (hv : s.graph.Valid) :
    ∃ dropped, s.result afterChange = .ok ⟨[], dropped⟩ ∧
      (s.after afterChange).graph = { s.graph with edges := (s.after afterChange).graph.edges } ∧
      ((s.after afterChange).graph.edges ++ dropped.map (·.edge)).Perm s.graph.edges := by
  simp only [afterChange]
  rw [result_get_bind, after_get_bind]
  by_cases hr : s.graph.config.revalidateOnChange
  · rw [if_pos hr]
    exact revalidate_outcome hv
  · rw [if_neg hr]
    exact ⟨[], rfl, rfl, List.Perm.of_eq (List.append_nil _)⟩

theorem removeNode_cases (hv : s.graph.Valid) (id : NodeId) :
    (∃ reason, s.result (removeNode id) = .error reason ∧ s.after (removeNode id) = s) ∨
    ∃ report g', s.result (removeNode id) = .ok report ∧ (s.after (removeNode id)).graph = g' ∧
      g' = { s.graph.eraseNode id with edges := g'.edges } ∧
      report.removed = s.graph.edges.filter (·.touches id) ∧
      (g'.edges ++ report.gone).Perm s.graph.edges := by
  simp only [removeNode]
  rw [result_get_bind, after_get_bind]
  cases hnode : s.graph.node? id with
  | none => exact .inl ⟨_, rfl, rfl⟩
  | some node =>
    rw [if_neg (by simp), result_get_bind, after_get_bind, result_set_bind, after_set_bind,
      after_bind_pure]
    have hv' := Graph.valid_eraseNode hv id
    obtain ⟨dropped, hresult, hgraph, hperm⟩ := @afterChange_outcome
      { s.forget id with graph := (s.forget id).graph.eraseNode id } hv'
    rw [result_bind_ok hresult]
    refine .inr ⟨_, _, rfl, rfl, hgraph, rfl, ?_⟩
    -- What is left and what was dropped are the edges away from the node.
    have hrest := hperm.append_left (s.graph.edges.filter (·.touches id))
    refine List.Perm.trans ?_ (hrest.trans (List.filter_append_perm (·.touches id) s.graph.edges))
    simp only [Revalidation.gone]
    rw [← List.append_assoc, ← List.append_assoc]
    exact List.perm_append_comm.append_right _

theorem updateNodeData_cases (hv : s.graph.Valid) (id : NodeId) (data : NodeData) :
    (∃ reason, s.result (updateNodeData id data) = .error reason ∧
      s.after (updateNodeData id data) = s) ∨
    ∃ report g', s.result (updateNodeData id data) = .ok report ∧
      (s.after (updateNodeData id data)).graph = g' ∧
      g' = { s.graph.setData id data with edges := g'.edges } ∧ report.removed = [] ∧
      (g'.edges ++ report.gone).Perm s.graph.edges := by
  simp only [updateNodeData]
  rw [result_get_bind, after_get_bind]
  cases hnode : s.graph.node? id with
  | none => exact .inl ⟨_, rfl, rfl⟩
  | some node =>
    rw [if_neg (by simp), result_get_bind, after_get_bind, result_set_bind, after_set_bind]
    have hv' := Graph.valid_setData hv id data
    obtain ⟨dropped, hresult, hgraph, hperm⟩ := @afterChange_outcome
      { s.forget id with graph := (s.forget id).graph.setData id data } hv'
    exact .inr ⟨_, _, hresult, rfl, hgraph, rfl, hperm⟩

theorem perm_eraseEdge {g : Graph} (hv : g.Valid) {e : CommittedEdge} (he : e ∈ g.edges) :
    (e :: (g.eraseEdge e.id).edges).Perm g.edges := by
  have hone : g.edges.filter (·.id == e.id) = [e] := by
    have hnodup := (Graph.nodup_of_ascending hv.edges_ascending).filter (·.id == e.id)
    refine List.perm_singleton.1 ((List.perm_ext_iff_of_nodup hnodup (List.nodup_singleton e)).2 ?_)
    intro c
    rw [List.mem_filter, List.mem_singleton, beq_iff_eq]
    constructor
    · rintro ⟨hc, hid⟩
      exact hv.edge_ext hc he hid
    · rintro rfl
      exact ⟨he, rfl⟩
  have hsplit := List.filter_append_perm (·.id == e.id) g.edges
  rw [hone] at hsplit
  exact hsplit

theorem removeEdge_cases (hv : s.graph.Valid) (id : Nat) :
    (∃ reason, s.result (removeEdge id) = .error reason ∧ s.after (removeEdge id) = s) ∨
    ∃ report g' e, s.result (removeEdge id) = .ok report ∧ (s.after (removeEdge id)).graph = g' ∧
      g' = { s.graph with edges := g'.edges } ∧ report.removed = [] ∧
      s.graph.edge? id = some e ∧ (g'.edges ++ e :: report.gone).Perm s.graph.edges := by
  simp only [removeEdge]
  rw [result_get_bind, after_get_bind]
  cases hedge : s.graph.edge? id with
  | none => exact .inl ⟨_, rfl, rfl⟩
  | some e =>
    obtain ⟨he, rfl⟩ := Graph.edge?_eq_some hedge
    dsimp only
    rw [result_get_bind, after_get_bind, result_set_bind, after_set_bind]
    obtain ⟨dropped, hresult, hgraph, hperm⟩ := @afterChange_outcome
      { s.forget e.target with graph := (s.forget e.target).graph.eraseEdge e.id }
      (Graph.valid_eraseEdge hv e.id)
    refine .inr ⟨_, _, e, hresult, rfl, hgraph, rfl, rfl, ?_⟩
    exact List.perm_middle.trans ((hperm.cons e).trans (perm_eraseEdge hv he))

end Changes

section Load

theorem addEdges_outcome (hs : Sound config s) (edges : List Edge) :
    ∃ report added, s.result (addEdges edges) = .ok report ∧
      s.graph.Extends (s.after (addEdges edges)).graph edges report added := by
  induction edges generalizing s with
  | nil => exact ⟨_, _, rfl, Graph.Extends.nil s.graph⟩
  | cons e edges ih =>
    simp only [addEdges]
    obtain ⟨report, added, hreport, hextends⟩ := ih ((keeps_addEdge e).tryAddEdge s hs)
    rcases tryAddEdge_cases hs.valid e with ⟨reason, hresult, hafter⟩ | ⟨hresult, hafter⟩
    all_goals
      rw [result_bind_ok hresult, after_bind_ok hresult, result_bind_ok hreport,
        after_bind_ok hreport]
      rw [hafter] at hextends
    · exact ⟨_, _, rfl, hextends.rejected_cons ⟨e, reason⟩⟩
    · exact ⟨_, _, rfl, hextends.committed_cons⟩

/-- The checks of a definition's nodes find every node that could be refused. -/
theorem addNodes_of_checked {g : Graph} {seen : List NodeId} {nodes : List NodeDefinition}
    (h : checkNodes g seen nodes = .ok ()) (hkinds : s.graph.kinds = g.kinds)
    (hseen : ∀ id, (s.graph.node? id).isSome → (g.node? id).isSome ∨ id ∈ seen) :
    ∃ added, List.Forall₂ g.Instantiates nodes added ∧
      s.result (nodes.forM fun node => addNode node.id node.kind node.data) = .ok ⟨⟩ ∧
      s.after (nodes.forM fun node => addNode node.id node.kind node.data) =
        { s with graph := { s.graph with nodes := s.graph.nodes ++ added } } := by
  induction nodes generalizing s seen with
  | nil =>
    refine ⟨[], .nil, rfl, ?_⟩
    rw [List.append_nil]
    rfl
  | cons node nodes ih =>
    rw [checkNodes] at h
    split at h
    · cases h
    · rename_i hid
      simp only [Bool.or_eq_true, List.contains_iff_mem, not_or] at hid
      dsimp only at h
      split at h
      · cases h
      · rename_i hkind
        have hnew : s.graph.node? node.id = none := by
          rw [← Option.not_isSome_iff_eq_none]
          exact fun hsome => (hseen node.id hsome).elim hid.1 hid.2
        obtain ⟨k, hk⟩ : ∃ k, g.kinds.get? node.kind = some k := by
          simpa [Entries.has_eq_isSome, Option.ne_none_iff_exists'] using hkind
        have hknown : s.graph.kinds.get? node.kind = some k := hkinds ▸ hk
        obtain ⟨hresult, hafter⟩ := @addNode_of_known s node.id node.kind node.data k hnew hknown
        have hseen' : ∀ id, ((s.graph.appendNode (k.instantiate node.id node.data)).node? id).isSome →
            (g.node? id).isSome ∨ id ∈ node.id :: seen := by
          intro id hsome
          rw [Graph.node?_isSome_iff, Graph.appendNode, List.map_append, List.mem_append] at hsome
          rcases hsome with hsome | hsome
          · exact (hseen id (Graph.node?_isSome_iff.2 hsome)).imp_right (List.mem_cons_of_mem _)
          · exact .inr (List.mem_singleton.1 hsome ▸ List.mem_cons_self)
        obtain ⟨added, hadded, hresults, hafters⟩ := @ih
          { s with graph := s.graph.appendNode (k.instantiate node.id node.data) } _ h hkinds hseen'
        refine ⟨k.instantiate node.id node.data :: added, .cons ⟨k, hk, rfl⟩ hadded, ?_, ?_⟩
        · refine (result_bind_ok hresult).trans ?_
          rw [hafter]
          exact hresults
        · refine (after_bind_ok hresult).trans ?_
          rw [hafter, hafters]
          simp [Graph.appendNode]

theorem load_cases (hs : Sound config s) (d : PipelineDefinition) :
    (∃ reason, s.result (load d) = .error reason ∧ s.after (load d) = s) ∨
    ∃ report, s.result (load d) = .ok report ∧
      s.graph.Loaded (s.after (load d)).graph d report := by
  simp only [load]
  rw [result_get_bind, after_get_bind]
  cases hcheck : checkNodes s.graph [] d.nodes with
  | error reason => exact .inl ⟨reason, rfl, rfl⟩
  | ok _ =>
    obtain ⟨added, hadded, hresult, hafter⟩ :=
      addNodes_of_checked hcheck rfl fun id hsome => .inl hsome
    have hs' : Sound config (s.after (d.nodes.forM fun node => addNode node.id node.kind node.data)) :=
      Keeps.forM d.nodes (fun node => keeps_addNode node.id node.kind node.data) s hs
    obtain ⟨report, edges, hreport, hextends⟩ := addEdges_outcome hs' d.edges
    refine .inr ⟨report, ?_, added, edges, hadded, ?_⟩
    · exact (result_bind_ok hresult).trans hreport
    · have hafters := @after_bind_ok _ _ _ (fun _ => addEdges d.edges) s _ hresult
      rw [hafter] at hafters hextends
      exact hafters ▸ hextends

theorem loadFrom_cases {ε : Type} (hs : Sound config s) (d : Except ε PipelineDefinition) :
    ((∃ reason, s.result (loadFrom d) = .error reason) ∨
      ∃ e, s.result (loadFrom d) = .ok (.error e)) ∧ s.after (loadFrom d) = s ∨
    ∃ report definition, d = .ok definition ∧ s.result (loadFrom d) = .ok (.ok report) ∧
      s.graph.Loaded (s.after (loadFrom d)).graph definition report := by
  cases d with
  | error e => exact .inl ⟨.inr ⟨e, rfl⟩, rfl⟩
  | ok definition =>
    have hafter : s.after (loadFrom (ε := ε) (.ok definition)) = s.after (load definition) :=
      after_bind_pure Except.ok s
    rw [hafter]
    rcases load_cases hs definition with ⟨reason, hresult, hsame⟩ | ⟨report, hresult, hloaded⟩
    · exact .inl ⟨.inl ⟨reason, result_bind_error hresult⟩, hsame⟩
    · exact .inr ⟨report, definition, rfl, result_bind_ok hresult, hloaded⟩

end Load

end Edit
end TypedFlow
