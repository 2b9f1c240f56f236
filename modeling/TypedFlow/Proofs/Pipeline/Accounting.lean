import TypedFlow.Proofs.Pipeline.Outcomes

/-!
# Edits are atomic and account for every edge

An edit that fails leaves the graph as it was. It may leave more types in the cache, but no edit and
no question can tell: what they return and make of a graph depends on the graph alone. An edit that
succeeds reports where every edge has gone. Ids are given out in ascending order, so none is given
out twice.
-/
namespace TypedFlow

namespace Edit
variable {α β : Type} {P : Session → Prop} {config : GraphConfig}
open Session (Sound)

/-- What an edit returns and makes of a graph does not depend on the cache. -/
def Blind (P : Session → Prop) (edit : Edit α) : Prop := ∀ s t, P s → P t → s.graph = t.graph →
  s.result edit = t.result edit ∧ (s.after edit).graph = (t.after edit).graph

theorem Blind.pure (a : α) : Blind P (Pure.pure a : Edit α) := fun _ _ _ _ h => ⟨rfl, h⟩

theorem Blind.bind {edit : Edit α} {f : α → Edit β} (h : Blind P edit) (hkeeps : Keeps P edit)
    (hf : ∀ a, Blind P (f a)) : Blind P (edit >>= f) := by
  intro s t hs ht hst
  obtain ⟨hresult, hgraph⟩ := h s t hs ht hst
  cases hr : t.result edit with
  | ok a =>
    rw [result_bind_ok hr, after_bind_ok hr]
    rw [hr] at hresult
    rw [result_bind_ok hresult, after_bind_ok hresult]
    exact hf a _ _ (hkeeps s hs) (hkeeps t ht) hgraph
  | error reason =>
    rw [result_bind_error hr, after_bind_error hr]
    rw [hr] at hresult
    rw [result_bind_error hresult, after_bind_error hresult]
    exact ⟨rfl, hgraph⟩

theorem Blind.forM {f : α → Edit PUnit} (items : List α) (h : ∀ a, Blind P (f a))
    (hkeeps : ∀ a, Keeps P (f a)) : Blind P (items.forM f) := by
  induction items with
  | nil => exact .pure _
  | cons a items ih => exact (h a).bind (hkeeps a) fun _ => ih

theorem Blind.tryCatch {edit : Edit α} {handler : GraphError → Edit α} (h : Blind P edit)
    (hkeeps : Keeps P edit) (hh : ∀ reason, Blind P (handler reason)) :
    Blind P (tryCatch edit handler) := by
  intro s t hs ht hst
  obtain ⟨hresult, hgraph⟩ := h s t hs ht hst
  simp only [Session.result, Session.after]
  cases hr : t.result edit with
  | ok a =>
    rw [hr] at hresult
    rw [run_tryCatch_ok hr, run_tryCatch_ok hresult]
    exact ⟨hresult.trans hr.symm, hgraph⟩
  | error reason =>
    rw [hr] at hresult
    rw [run_tryCatch_error hr, run_tryCatch_error hresult]
    exact hh reason _ _ (hkeeps s hs) (hkeeps t ht) hgraph

theorem blind_query {q : Graph → Query α} (hq : ∀ g : Graph, g.Valid → g.Steady (q g)) :
    Blind (Sound config) (query q) := by
  rintro ⟨g, cache⟩ ⟨_, cache'⟩ hs ht rfl
  obtain ⟨r, hr⟩ := hq g hs.valid
  exact ⟨(hr cache hs.coherent).1.trans (hr cache' ht.coherent).1.symm, rfl⟩

theorem blind_addNode (id : NodeId) (kind : String) (data : NodeData) :
    Blind (Sound config) (addNode id kind data) := by
  rintro ⟨g, cache⟩ ⟨_, cache'⟩ hs ht rfl
  simp only [addNode]
  rw [result_get_bind, result_get_bind, after_get_bind, after_get_bind]
  by_cases hnew : (g.node? id).isSome
  · rw [if_pos hnew, if_pos hnew]
    exact ⟨rfl, rfl⟩
  · rw [if_neg hnew, if_neg hnew]
    cases g.kinds.get? kind with
    | none => exact ⟨rfl, rfl⟩
    | some k => exact ⟨rfl, rfl⟩

theorem blind_addEdge (e : Edge) : Blind (Sound config) (addEdge e) := by
  intro s t hs ht hst
  obtain ⟨r, hr⟩ := Graph.steady_checkEdge hs.valid e
  have hanswer := (hr s.cache hs.coherent).1
  have hanswer' := (hr t.cache (hst ▸ ht.coherent)).1
  rw [hst] at hanswer'
  cases r with
  | error reason =>
    obtain ⟨hresult, hafter⟩ := addEdge_of_error hanswer
    obtain ⟨hresult', hafter'⟩ := addEdge_of_error hanswer'
    rw [hresult, hresult', hafter, hafter']
    exact ⟨rfl, hst⟩
  | ok _ =>
    obtain ⟨hresult, hafter⟩ := addEdge_of_ok hanswer
    obtain ⟨hresult', hafter'⟩ := addEdge_of_ok hanswer'
    rw [hresult, hresult', hafter, hafter']
    refine ⟨by rw [hst], ?_⟩
    change (s.committed e).graph = (t.committed e).graph
    rw [Session.graph_committed hs.valid, Session.graph_committed ht.valid, hst]

theorem Blind.tryAddEdge (e : Edge) : Blind (Sound config) (tryAddEdge e) :=
  ((blind_addEdge e).bind (keeps_addEdge e) fun _ => .pure _).tryCatch
    ((keeps_addEdge e).bind fun _ => .pure _) fun _ => .pure _

theorem Blind.applyEdge (e : Edge) : Blind (Sound config) (applyEdge e) := by
  refine (Blind.tryAddEdge e).bind (keeps_addEdge e).tryAddEdge fun outcome => ?_
  cases outcome with
  | ok id => exact .pure _
  | error reason => exact .pure _

theorem blind_addEdges (edges : List Edge) : Blind (Sound config) (addEdges edges) := by
  induction edges with
  | nil => exact .pure _
  | cons e edges ih =>
    refine (Blind.tryAddEdge e).bind (keeps_addEdge e).tryAddEdge fun outcome =>
      ih.bind (Keeps.addEdges keeps_addEdge edges) fun report => ?_
    cases outcome with
    | ok id => exact .pure _
    | error reason => exact .pure _

theorem blind_load (d : PipelineDefinition) : Blind (Sound config) (load d) := by
  have hnode : ∀ node : NodeDefinition, Keeps (Sound config) (addNode node.id node.kind node.data) :=
    fun node => keeps_addNode node.id node.kind node.data
  have hrest : Blind (Sound config) (d.nodes.forM (fun node => addNode node.id node.kind node.data) >>=
      fun _ => addEdges d.edges) :=
    (Blind.forM d.nodes (fun node => blind_addNode _ _ _) hnode).bind (Keeps.forM d.nodes hnode)
      fun _ => blind_addEdges d.edges
  rintro ⟨g, cache⟩ ⟨_, cache'⟩ hs ht rfl
  simp only [load]
  rw [result_get_bind, result_get_bind, after_get_bind, after_get_bind]
  dsimp only
  cases checkNodes g [] d.nodes with
  | error reason => exact ⟨rfl, rfl⟩
  | ok _ => exact hrest _ _ hs ht rfl

theorem blind_loadFrom {ε : Type} (d : Except ε PipelineDefinition) :
    Blind (Sound config) (loadFrom d) := by
  cases d with
  | ok d =>
    refine (blind_load d).bind ?_ fun _ => .pure _
    exact Keeps.load (fun _ _ _ => keeps_addNode _ _ _) keeps_addEdge d
  | error e => exact .pure _

section Changes

theorem blind_revalidate : Blind P revalidate := by
  rintro ⟨g, cache⟩ ⟨_, cache'⟩ _ _ rfl
  -- The cache is emptied before anything is asked.
  exact ⟨rfl, rfl⟩

theorem blind_afterChange : Blind P afterChange := by
  rintro ⟨g, cache⟩ ⟨_, cache'⟩ hs ht rfl
  simp only [afterChange]
  rw [result_get_bind, result_get_bind, after_get_bind, after_get_bind]
  dsimp only
  by_cases hr : g.config.revalidateOnChange
  · rw [if_pos hr]
    exact blind_revalidate _ _ hs ht rfl
  · rw [if_neg hr]
    exact ⟨rfl, rfl⟩

theorem blind_removeNode (id : NodeId) : Blind P (removeNode id) := by
  have hrest : ∀ removed, Blind (fun _ => True)
      (afterChange >>= fun report => Pure.pure { report with removed }) := fun removed =>
    blind_afterChange.bind (fun _ _ => trivial) fun _ => .pure _
  rintro ⟨g, cache⟩ ⟨_, cache'⟩ - - rfl
  simp only [removeNode]
  rw [result_get_bind, result_get_bind, after_get_bind, after_get_bind]
  dsimp only
  cases g.node? id with
  | none => exact ⟨rfl, rfl⟩
  | some node => exact hrest _ _ _ trivial trivial rfl

theorem blind_removeEdge (id : Nat) : Blind P (removeEdge id) := by
  rintro ⟨g, cache⟩ ⟨_, cache'⟩ - - rfl
  simp only [removeEdge]
  rw [result_get_bind, result_get_bind, after_get_bind, after_get_bind]
  dsimp only
  cases g.edge? id with
  | none => exact ⟨rfl, rfl⟩
  | some e => exact @blind_afterChange (fun _ => True) _ _ trivial trivial rfl

theorem blind_updateNodeData (id : NodeId) (data : NodeData) : Blind P (updateNodeData id data) := by
  rintro ⟨g, cache⟩ ⟨_, cache'⟩ - - rfl
  simp only [updateNodeData]
  rw [result_get_bind, result_get_bind, after_get_bind, after_get_bind]
  dsimp only
  cases g.node? id with
  | none => exact ⟨rfl, rfl⟩
  | some node => exact @blind_afterChange (fun _ => True) _ _ trivial trivial rfl

end Changes

end Edit

namespace Graph
variable {g g' g'' : Graph}

/-- Of the edges of a later graph, those with an id that has been given out are old. -/
structure Precedes (g g' : Graph) : Prop where
  nextEdge_le : g.nextEdge ≤ g'.nextEdge
  old : ∀ e ∈ g'.edges, e.id < g.nextEdge → e ∈ g.edges

theorem Precedes.refl (g : Graph) : Precedes g g := ⟨Nat.le_refl _, fun _ he _ => he⟩

theorem Precedes.trans (h : Precedes g g') (h' : Precedes g' g'') : Precedes g g'' :=
  ⟨Nat.le_trans h.nextEdge_le h'.nextEdge_le, fun e he hlt =>
    h.old e (h'.old e he (Nat.lt_of_lt_of_le hlt h.nextEdge_le)) hlt⟩

theorem precedes_of_subset (hnext : g'.nextEdge = g.nextEdge)
    (hsubset : ∀ e ∈ g'.edges, e ∈ g.edges) : Precedes g g' :=
  ⟨Nat.le_of_eq hnext.symm, fun e he _ => hsubset e he⟩

theorem precedes_plus (g : Graph) (e : Edge) : Precedes g (g.plus e) := by
  refine ⟨Nat.le_succ _, fun c hc hlt => ?_⟩
  rcases mem_edges_plus.1 hc with hc | rfl
  · exact hc
  · exact absurd hlt (Nat.lt_irrefl _)

theorem precedes_of_perm {gone : List CommittedEdge} (hnext : g'.nextEdge = g.nextEdge)
    (h : (g'.edges ++ gone).Perm g.edges) : Precedes g g' :=
  precedes_of_subset hnext fun _ he => h.mem_iff.1 (List.mem_append_left _ he)

end Graph

namespace Session
variable {config : GraphConfig} {s t : Session}

theorem blind_act (hs : Sound config s) (ht : Sound config t) (h : s.graph = t.graph) (a : Action) :
    (s.act a).graph = (t.act a).graph := by
  cases a with
  | addNode id kind data => exact (Edit.blind_addNode id kind data s t hs ht h).2
  | removeNode id => exact (Edit.blind_removeNode id s t hs ht h).2
  | addEdge e => exact (Edit.blind_addEdge e s t hs ht h).2
  | applyEdge e => exact (Edit.Blind.applyEdge e s t hs ht h).2
  | removeEdge id => exact (Edit.blind_removeEdge id s t hs ht h).2
  | updateNodeData id data => exact (Edit.blind_updateNodeData id data s t hs ht h).2
  | load d => exact (Edit.blind_load d s t hs ht h).2
  | loadFrom d => exact (Edit.blind_loadFrom d s t hs ht h).2
  | revalidate => exact (Edit.blind_revalidate s t hs ht h).2
  | ask q => exact (Edit.blind_query (fun _ hv => q.steady_ask hv) s t hs ht h).2

/-- From one graph every run leads to one graph, whatever is cached. -/
theorem blind_run (hs : Sound config s) (ht : Sound config t) (h : s.graph = t.graph)
    (actions : List Action) : (s.run actions).graph = (t.run actions).graph := by
  induction actions generalizing s t with
  | nil => exact h
  | cons a actions ih =>
    have hact := invariant_sound config
    exact ih (hact.act hs a) (hact.act ht a) (blind_act hs ht h a)

theorem answer_congr (hs : Sound config s) (ht : Sound config t) (h : s.graph = t.graph)
    (q : Question) : (q.ask s.graph).answer s.cache = (q.ask s.graph).answer t.cache := by
  obtain ⟨r, hr⟩ := q.steady_ask hs.valid
  exact (hr s.cache hs.coherent).1.trans (hr t.cache (h ▸ ht.coherent)).1.symm

/-- An action returns an error, or a refusal as one of its outcomes. -/
def Refuses (s : Session) : Action → Prop
  | .addNode id kind data => ∃ reason, s.result (Edit.addNode id kind data) = .error reason
  | .removeNode id => ∃ reason, s.result (Edit.removeNode id) = .error reason
  | .addEdge e => ∃ reason, s.result (Edit.addEdge e) = .error reason
  | .applyEdge e => ∃ reason, s.result (Edit.applyEdge e) = .ok (.rejected reason)
  | .removeEdge id => ∃ reason, s.result (Edit.removeEdge id) = .error reason
  | .updateNodeData id data => ∃ reason, s.result (Edit.updateNodeData id data) = .error reason
  | .load d => ∃ reason, s.result (Edit.load d) = .error reason
  | .loadFrom d => (∃ reason, s.result (Edit.loadFrom d) = .error reason) ∨
      ∃ e, s.result (Edit.loadFrom d) = .ok (.error e)
  | .revalidate => ∃ reason, s.result Edit.revalidate = .error reason
  | .ask q => ∃ reason, s.result (Edit.query q.ask) = .error reason

theorem graph_of_refuses (hs : Sound config s) {a : Action} (h : s.Refuses a) :
    (s.act a).graph = s.graph := by
  have hcases : ∀ {α : Type} {r : Except GraphError α} {b : α}, r = .ok b →
      ¬ ∃ reason, r = .error reason := by
    rintro α _ b rfl ⟨reason, hreason⟩
    cases hreason
  cases a with
  | addNode id kind data =>
    rcases Edit.addNode_cases s id kind data with ⟨_, -, hsame⟩ | ⟨_, _, hok, -⟩
    · exact congrArg (·.graph) hsame
    · exact absurd h (hcases hok)
  | removeNode id =>
    rcases Edit.removeNode_cases hs.valid id with ⟨_, -, hsame⟩ | ⟨_, _, hok, -⟩
    · exact congrArg (·.graph) hsame
    · exact absurd h (hcases hok)
  | addEdge e =>
    rcases Edit.addEdge_cases hs.valid e with ⟨_, -, hsame⟩ | ⟨hok, -⟩
    · exact hsame
    · exact absurd h (hcases hok)
  | applyEdge e =>
    rcases Edit.applyEdge_cases hs.valid e with ⟨_, -, hsame⟩ | ⟨hok, -⟩
    · exact hsame
    · obtain ⟨reason, hreason⟩ := h
      cases hok.symm.trans hreason
  | removeEdge id =>
    rcases Edit.removeEdge_cases hs.valid id with ⟨_, -, hsame⟩ | ⟨_, _, _, hok, -⟩
    · exact congrArg (·.graph) hsame
    · exact absurd h (hcases hok)
  | updateNodeData id data =>
    rcases Edit.updateNodeData_cases hs.valid id data with ⟨_, -, hsame⟩ | ⟨_, _, hok, -⟩
    · exact congrArg (·.graph) hsame
    · exact absurd h (hcases hok)
  | load d =>
    rcases Edit.load_cases hs d with ⟨_, -, hsame⟩ | ⟨_, hok, -⟩
    · exact congrArg (·.graph) hsame
    · exact absurd h (hcases hok)
  | loadFrom d =>
    rcases Edit.loadFrom_cases hs d with ⟨-, hsame⟩ | ⟨_, _, _, hok, -⟩
    · exact congrArg (·.graph) hsame
    · rcases h with h | ⟨e, he⟩
      · exact absurd h (hcases hok)
      · cases hok.symm.trans he
  | revalidate =>
    obtain ⟨_, hok, -⟩ := Edit.revalidate_outcome hs.valid
    exact absurd h (hcases hok)
  | ask q => rfl

/-- What successful edits report: the edges that are left and those reported are together the edges
that were there, each once. -/
structure Accounts (s : Session) : Prop where
  addNode : ∀ id kind data, s.result (Edit.addNode id kind data) = .ok () →
    ∃ k, s.graph.kinds.get? kind = some k ∧
      (s.after (Edit.addNode id kind data)).graph = s.graph.appendNode (k.instantiate id data)
  addEdge : ∀ e id, s.result (Edit.addEdge e) = .ok id →
    id = s.graph.nextEdge ∧ (s.after (Edit.addEdge e)).graph = s.graph.plus e
  applyEdge : ∀ e id, s.result (Edit.applyEdge e) = .ok (.committed id) →
    id = s.graph.nextEdge ∧ (s.after (Edit.applyEdge e)).graph = s.graph.plus e
  removeNode : ∀ id report, s.result (Edit.removeNode id) = .ok report →
    let g := (s.after (Edit.removeNode id)).graph
    g = { s.graph.eraseNode id with edges := g.edges } ∧
      report.removed = s.graph.edges.filter (·.touches id) ∧
      (g.edges ++ report.gone).Perm s.graph.edges
  removeEdge : ∀ id report, s.result (Edit.removeEdge id) = .ok report →
    let g := (s.after (Edit.removeEdge id)).graph
    g = { s.graph with edges := g.edges } ∧ report.removed = [] ∧
      ∃ e, s.graph.edge? id = some e ∧ (g.edges ++ e :: report.gone).Perm s.graph.edges
  updateNodeData : ∀ id data report, s.result (Edit.updateNodeData id data) = .ok report →
    let g := (s.after (Edit.updateNodeData id data)).graph
    g = { s.graph.setData id data with edges := g.edges } ∧ report.removed = [] ∧
      (g.edges ++ report.gone).Perm s.graph.edges
  load : ∀ d report, s.result (Edit.load d) = .ok report →
    s.graph.Loaded (s.after (Edit.load d)).graph d report
  loadFrom : ∀ (ε : Type) (d : Except ε PipelineDefinition) report,
    s.result (Edit.loadFrom d) = .ok (.ok report) →
    ∃ definition, d = .ok definition ∧
      s.graph.Loaded (s.after (Edit.loadFrom d)).graph definition report

theorem Sound.accounts (hs : Sound config s) : s.Accounts where
  addNode id kind data h := by
    rcases Edit.addNode_cases s id kind data with ⟨_, herror, -⟩ | ⟨k, hk, -, hafter⟩
    · cases herror.symm.trans h
    · exact ⟨k, hk, congrArg (·.graph) hafter⟩
  addEdge e id h := by
    rcases Edit.addEdge_cases hs.valid e with ⟨_, herror, -⟩ | ⟨hok, hafter⟩
    · cases herror.symm.trans h
    · cases hok.symm.trans h
      exact ⟨rfl, hafter⟩
  applyEdge e id h := by
    rcases Edit.applyEdge_cases hs.valid e with ⟨_, herror, -⟩ | ⟨hok, hafter⟩
    · cases herror.symm.trans h
    · cases hok.symm.trans h
      exact ⟨rfl, hafter⟩
  removeNode id report h := by
    rcases Edit.removeNode_cases hs.valid id with ⟨_, herror, -⟩ | ⟨_, _, hok, rfl, hrest⟩
    · cases herror.symm.trans h
    · cases hok.symm.trans h
      exact hrest
  removeEdge id report h := by
    rcases Edit.removeEdge_cases hs.valid id with
      ⟨_, herror, -⟩ | ⟨_, _, e, hok, rfl, hgraph, hremoved, hrest⟩
    · cases herror.symm.trans h
    · cases hok.symm.trans h
      exact ⟨hgraph, hremoved, e, hrest⟩
  updateNodeData id data report h := by
    rcases Edit.updateNodeData_cases hs.valid id data with ⟨_, herror, -⟩ | ⟨_, _, hok, rfl, hrest⟩
    · cases herror.symm.trans h
    · cases hok.symm.trans h
      exact hrest
  load d report h := by
    rcases Edit.load_cases hs d with ⟨_, herror, -⟩ | ⟨_, hok, hloaded⟩
    · cases herror.symm.trans h
    · cases hok.symm.trans h
      exact hloaded
  loadFrom _ d report h := by
    rcases Edit.loadFrom_cases hs d with
      ⟨⟨_, herror⟩ | ⟨_, herror⟩, -⟩ | ⟨_, definition, hd, hok, hloaded⟩
    · cases herror.symm.trans h
    · cases herror.symm.trans h
    · cases hok.symm.trans h
      exact ⟨definition, hd, hloaded⟩

theorem invariant_precedes (config : GraphConfig) (g : Graph) :
    Invariant fun s => Sound config s ∧ g.Precedes s.graph where
  addNode id kind data s hs := by
    refine ⟨Edit.keeps_addNode id kind data s hs.1, hs.2.trans ?_⟩
    rcases Edit.addNode_cases s id kind data with ⟨_, -, hafter⟩ | ⟨_, -, -, hafter⟩
    · rw [hafter]
      exact .refl _
    · rw [hafter]
      exact Graph.precedes_of_subset rfl fun _ he => he
  removeNode id s hs := by
    refine ⟨Edit.keeps_removeNode id s hs.1, hs.2.trans ?_⟩
    rcases Edit.removeNode_cases hs.1.valid id with ⟨_, -, hafter⟩ | ⟨_, _, -, rfl, hgraph, -, hperm⟩
    · rw [hafter]
      exact .refl _
    · exact Graph.precedes_of_perm (congrArg (·.nextEdge) hgraph) hperm
  addEdge e s hs := by
    refine ⟨Edit.keeps_addEdge e s hs.1, hs.2.trans ?_⟩
    rcases Edit.addEdge_cases hs.1.valid e with ⟨_, -, hafter⟩ | ⟨-, hafter⟩
    · rw [hafter]
      exact .refl _
    · rw [hafter]
      exact Graph.precedes_plus s.graph e
  removeEdge id s hs := by
    refine ⟨Edit.keeps_removeEdge id s hs.1, hs.2.trans ?_⟩
    rcases Edit.removeEdge_cases hs.1.valid id with
      ⟨_, -, hafter⟩ | ⟨_, _, _, -, rfl, hgraph, -, -, hperm⟩
    · rw [hafter]
      exact .refl _
    · exact Graph.precedes_of_perm (congrArg (·.nextEdge) hgraph) hperm
  updateNodeData id data s hs := by
    refine ⟨Edit.keeps_updateNodeData id data s hs.1, hs.2.trans ?_⟩
    rcases Edit.updateNodeData_cases hs.1.valid id data with
      ⟨_, -, hafter⟩ | ⟨_, _, -, rfl, hgraph, -, hperm⟩
    · rw [hafter]
      exact .refl _
    · exact Graph.precedes_of_perm (congrArg (·.nextEdge) hgraph) hperm
  revalidate s hs := by
    obtain ⟨_, -, hgraph, hperm⟩ := Edit.revalidate_outcome hs.1.valid
    exact ⟨Edit.keeps_revalidate s hs.1,
      hs.2.trans (Graph.precedes_of_perm (congrArg (·.nextEdge) hgraph) hperm)⟩
  ask q s hs := ⟨(invariant_sound config).ask q s hs.1, hs.2⟩

theorem Sound.precedes_run (hs : Sound config s) (actions : List Action) :
    s.graph.Precedes (s.run actions).graph :=
  ((invariant_precedes config s.graph).run ⟨hs, .refl _⟩ actions).2

end Session

section Runs
variable {scope : Scope} {config : GraphConfig} {kinds : List NodeKind}
  {aliases : List (String × String)} {g : Graph}

/-- After every run, a refused action leaves the graph as it was, and nothing that is done or asked
later can tell that it was tried; a successful edit accounts for every edge; and in no later graph
does another edge have the id of an edge. -/
theorem edits_account_for_edges (h : Graph.create scope config kinds aliases = .ok g)
    (actions : List Action) :
    let s := (Session.new g).run actions
    (∀ a, s.Refuses a → (s.act a).graph = s.graph ∧ ∀ later,
      ((s.act a).run later).graph = (s.run later).graph ∧
      ∀ q : Question, (q.ask (s.run later).graph).answer ((s.act a).run later).cache =
        (q.ask (s.run later).graph).answer (s.run later).cache) ∧
    s.Accounts ∧
    ∀ later, ∀ e ∈ s.graph.edges, ∀ c ∈ (s.run later).graph.edges, c.id = e.id → c = e := by
  intro s
  have hs : Session.Sound config s := (Session.sound_new h).run actions
  refine ⟨fun a hrefuses => ?_, hs.accounts, fun later e he c hc hid => ?_⟩
  · have hgraph := Session.graph_of_refuses hs hrefuses
    have hact : Session.Sound config (s.act a) := (Session.invariant_sound config).act hs a
    refine ⟨hgraph, fun later => ⟨Session.blind_run hact hs hgraph later, fun q => ?_⟩⟩
    exact (Session.answer_congr (hs.run later) (hact.run later)
      (Session.blind_run hs hact hgraph.symm later) q).symm
  · have hlt : c.id < s.graph.nextEdge := hid ▸ hs.valid.edge_lt e he
    exact hs.valid.edge_ext ((hs.precedes_run later).old c hc hlt) he hid

/-- The meter and the lamp lose their edges with the relay between them. -/
theorem meterOn_loses_relay :
    let s := (Session.new meterGraph).run meterOn
    (s.act (.addEdge ⟨"m", 0, "r", 0⟩)).graph = s.graph ∧
      ∃ report, s.result (Edit.removeNode "r") = .ok report ∧
        report.removed = [⟨⟨"r", 0, "l", 0⟩, 0⟩, ⟨⟨"m", 0, "r", 0⟩, 1⟩] ∧
        ((s.after (Edit.removeNode "r")).graph.edges ++ report.gone).Perm s.graph.edges := by
  intro s
  obtain ⟨hrefused, haccounts, -⟩ := edits_account_for_edges create_meterGraph meterOn
  have hfull : (s.result (Edit.addEdge ⟨"m", 0, "r", 0⟩)).isOk = false := by decide +kernel
  have hok : (s.result (Edit.removeNode "r")).isOk = true := by decide +kernel
  have hedges : s.graph.edges.filter (·.touches "r") =
      [⟨⟨"r", 0, "l", 0⟩, 0⟩, ⟨⟨"m", 0, "r", 0⟩, 1⟩] := by decide +kernel
  have herror : s.Refuses (.addEdge ⟨"m", 0, "r", 0⟩) := by
    cases hresult : s.result (Edit.addEdge ⟨"m", 0, "r", 0⟩) with
    | ok id =>
      rw [hresult] at hfull
      cases hfull
    | error reason => exact ⟨reason, hresult⟩
  refine ⟨(hrefused _ herror).1, _, eq_ok_of_isOk hok ⟨[], []⟩, ?_⟩
  obtain ⟨-, hremoved, hperm⟩ := haccounts.removeNode "r" _ (eq_ok_of_isOk hok ⟨[], []⟩)
  exact ⟨hremoved.trans hedges, hperm⟩

end Runs
end TypedFlow
