import TypedFlow.Proofs.Pipeline.Admission

/-!
# Sound sessions

A session is sound when its graph is valid, its cache coherent and, where every change is followed
by a revalidation, all its edges fit. Every edit keeps a session sound, also when it fails: what is
forgotten makes the cache coherent again after a change, and a revalidation puts edges back with
those of earlier sources first, so that an edge which is put back affects none that is there.
-/
namespace TypedFlow
open Relation (ReflTransGen TransGen)

namespace Session
variable {α β : Type}

def result (s : Session) (edit : Edit α) : Except GraphError α := (edit.run.run s).1

/-- The session after an edit, whether or not it has succeeded. -/
def after (s : Session) (edit : Edit α) : Session := (edit.run.run s).2

/-- Between a change and its revalidation, committed edges need not fit. -/
structure Settled (config : GraphConfig) (s : Session) : Prop where
  config_eq : s.graph.config = config
  valid : s.graph.Valid
  coherent : s.graph.Coherent s.cache

structure Sound (config : GraphConfig) (s : Session) : Prop extends Settled config s where
  compatible : config.revalidateOnChange = true → s.graph.Compatible

variable {config : GraphConfig} {s : Session}

/-- The session after a query, which has only added to the cache. -/
def asked (s : Session) (q : Query α) : Session := { s with cache := q.after s.cache }

theorem runQuery_eq (q : Graph → Query α) :
    s.runQuery q = ((q s.graph).answer s.cache, s.asked (q s.graph)) := rfl

theorem Settled.asked (h : Settled config s) {q : Query α} (hq : s.graph.Steady q) :
    Settled config (s.asked q) := by
  obtain ⟨r, hr⟩ := hq
  exact ⟨h.config_eq, h.valid, (hr s.cache h.coherent).2⟩

theorem Settled.commit (h : Settled config s) {e : CommittedEdge}
    (hnew : e.id ∉ s.graph.edges.map (·.id)) (hlt : e.id < s.graph.nextEdge)
    (hjoins : e.toEdge.Joins s.graph) : Settled config (s.commit e) where
  config_eq := h.config_eq
  valid := Graph.valid_withEdge h.valid hnew hlt hjoins
  coherent := Graph.coherent_forget
    (Graph.agreeOn_withEdge h.valid hnew (Graph.isSome_target hjoins.attached)) h.coherent

/-- The session in which an edge has got the next id. -/
def committed (s : Session) (e : Edge) : Session :=
  Session.commit { s with graph := { s.graph with nextEdge := s.graph.nextEdge + 1 } }
    { e with id := s.graph.nextEdge }

theorem graph_committed (hv : s.graph.Valid) (e : Edge) : (s.committed e).graph = s.graph.plus e :=
  (Graph.plus_eq_withEdge hv).symm

theorem Settled.committed (h : Settled config s) {e : Edge} (hjoins : e.Joins s.graph) :
    Settled config (s.committed e) := by
  have hbump : Graph.AgreeOn (fun _ => True) s.graph
      { s.graph with nextEdge := s.graph.nextEdge + 1 } :=
    ⟨rfl, rfl, fun _ _ => rfl, fun _ _ => rfl, fun _ _ _ _ => trivial⟩
  have hnext : Settled config
      { s with graph := { s.graph with nextEdge := s.graph.nextEdge + 1 } } :=
    ⟨h.config_eq, Graph.valid_bump h.valid,
      fun id types hget => (h.coherent id types hget).congr hbump trivial⟩
  refine hnext.commit (Graph.nextEdge_not_mem h.valid) (Nat.lt_succ_self _) ?_
  exact ⟨Graph.attached_congr hjoins.attached rfl rfl, hjoins.acyclic, hjoins.room⟩

section Revalidation
variable {g : Graph}

/-- The state in which some edges of a graph have been replayed and `rest` is still to come, with
earlier sources first. -/
structure Replaying (config : GraphConfig) (g : Graph) (rest : List CommittedEdge) (s : Session) :
    Prop extends Settled config s where
  compatible : s.graph.Compatible
  nextEdge_eq : s.graph.nextEdge = g.nextEdge
  subset : ∀ c ∈ s.graph.edges, c ∈ g.edges
  earlier : ∀ c ∈ s.graph.edges, ∀ e ∈ rest, c.id ≠ e.id ∧
    g.executionOrder.idxOf c.source ≤ g.executionOrder.idxOf e.source

/-- What starts no later than an edge does not start behind its target. -/
theorem Replaying.not_downstream (hv : g.Valid) {rest : List CommittedEdge}
    (h : Replaying config g rest s) {e c : CommittedEdge} (he : e ∈ g.edges)
    (hle : g.executionOrder.idxOf c.source ≤ g.executionOrder.idxOf e.source) :
    c.source ∉ s.graph.downstream e.target := by
  intro hdown
  have hreach : ReflTransGen g.Feeds e.target c.source :=
    ReflTransGen.mono (fun _ _ hf => Graph.feeds_mono h.subset hf) _ _
      ((Graph.mem_downstream_iff h.valid).1 hdown).2
  have hbehind := Graph.idxOf_le_of_reaches hv hreach
  have hlt := Graph.idxOf_source_lt hv he
  omega

theorem Replaying.id_not_mem {e : CommittedEdge} {rest : List CommittedEdge}
    (h : Replaying config g (e :: rest) s) : e.id ∉ s.graph.edges.map (·.id) := by
  intro hmem
  obtain ⟨c, hc, heq⟩ := List.mem_map.1 hmem
  exact (h.earlier c hc e List.mem_cons_self).1 heq

theorem Replaying.step (hv : g.Valid) {e : CommittedEdge} {rest : List CommittedEdge}
    (h : Replaying config g (e :: rest) s) (he : e ∈ g.edges)
    (hrest : ∀ c ∈ rest, e.id ≠ c.id ∧
      g.executionOrder.idxOf e.source ≤ g.executionOrder.idxOf c.source)
    (dropped : List DroppedEdge) : Replaying config g rest ( readmit (s, dropped) e).1 := by
  have hasked := h.toSettled.asked (Graph.steady_checkEdge h.valid e.toEdge)
  have hearlier : ∀ c ∈ s.graph.edges, ∀ d ∈ rest, c.id ≠ d.id ∧
      g.executionOrder.idxOf c.source ≤ g.executionOrder.idxOf d.source :=
    fun c hc d hd => h.earlier c hc d (List.mem_cons_of_mem e hd)
  unfold readmit
  dsimp only
  rw [runQuery_eq]
  cases hanswer : (s.graph.checkEdge e.toEdge).answer s.cache with
  | error reason => exact ⟨hasked, h.compatible, h.nextEdge_eq, h.subset, hearlier⟩
  | ok _ =>
    obtain ⟨hjoins, hfit⟩ := Graph.checkEdge_sound h.valid h.coherent hanswer
    have hnew := h.id_not_mem
    have hlt : e.id < s.graph.nextEdge := h.nextEdge_eq ▸ hv.edge_lt e he
    have hcommit := hasked.commit hnew hlt hjoins
    have hmem : ∀ c ∈ (s.graph.withEdge e).edges, c = e ∨ c ∈ s.graph.edges := fun c hc =>
      List.mem_cons.1 ((Graph.perm_insertEdge hnew).mem_iff.1 hc)
    refine ⟨hcommit, ?_, h.nextEdge_eq, ?_, ?_⟩
    · exact Graph.compatible_withEdge h.valid h.compatible hnew hcommit.valid hjoins hfit
        fun c hc => h.not_downstream hv he (h.earlier c hc e List.mem_cons_self).2
    · intro c hc
      rcases hmem c hc with rfl | hc
      · exact he
      · exact h.subset c hc
    · intro c hc d hd
      rcases hmem c hc with rfl | hc
      · exact hrest d hd
      · exact hearlier c hc d hd

theorem Replaying.replay (hv : g.Valid) {rest : List CommittedEdge}
    (h : Replaying config g rest s) (hmem : ∀ e ∈ rest, e ∈ g.edges)
    (horder : rest.Pairwise fun e c => e.id ≠ c.id ∧
      g.executionOrder.idxOf e.source ≤ g.executionOrder.idxOf c.source)
    (dropped : List DroppedEdge) :
    Replaying config g [] (rest.foldl readmit (s, dropped)).1 := by
  induction rest generalizing s dropped with
  | nil => exact h
  | cons e rest ih =>
    rw [List.pairwise_cons] at horder
    have hstep := h.step hv (hmem e List.mem_cons_self) horder.1 dropped
    exact ih hstep (fun c hc => hmem c (List.mem_cons_of_mem e hc)) horder.2 _

theorem replayOrder_pairwise (hv : g.Valid) : (replayOrder g).Pairwise fun e c => e.id ≠ c.id ∧
    g.executionOrder.idxOf e.source ≤ g.executionOrder.idxOf c.source := by
  simp only [replayOrder]
  refine List.Pairwise.and ?_ ?_
  · have hnodup : (g.edges.map (·.id)).Nodup := hv.edges_ascending.imp Nat.ne_of_lt
    have hperm := (List.mergeSort_perm g.edges fun a b =>
      g.executionOrder.idxOf a.source ≤ g.executionOrder.idxOf b.source).map (·.id)
    exact List.pairwise_map.1 (hperm.nodup_iff.2 hnodup)
  · have hsorted := @List.pairwise_mergeSort CommittedEdge (fun a b =>
      g.executionOrder.idxOf a.source ≤ g.executionOrder.idxOf b.source) ?_ ?_ g.edges
    · exact hsorted.imp fun h => by simpa using h
    · intro a b c hab hbc
      simp only [decide_eq_true_eq] at hab hbc ⊢
      exact Nat.le_trans hab hbc
    · intro a b
      simp only [Bool.or_eq_true, decide_eq_true_eq]
      exact Nat.le_total _ _

/-- A revalidation leaves edges that fit, whatever was committed before. -/
theorem Settled.revalidate (h : Settled config s) : Sound config s.revalidate.1 := by
  have hstart : Replaying config s.graph (replayOrder s.graph)
      ⟨{ s.graph with edges := [] }, []⟩ := by
    refine ⟨⟨h.config_eq, Graph.valid_noEdges h.valid, Graph.coherent_nil⟩, ?_, rfl, ?_, ?_⟩
    all_goals exact fun c hc => absurd hc List.not_mem_nil
  have hend := hstart.replay h.valid
    (fun e he => (List.mergeSort_perm _ _).mem_iff.1 he) (replayOrder_pairwise h.valid) []
  exact ⟨hend.toSettled, fun _ => hend.compatible⟩

end Revalidation

end Session

namespace Edit
variable {α β : Type} {P : Session → Prop}

def Keeps (P : Session → Prop) (edit : Edit α) : Prop := ∀ s, P s → P (s.after edit)

theorem after_bind_ok {edit : Edit α} {f : α → Edit β} {s : Session} {a : α}
    (h : s.result edit = .ok a) : s.after (edit >>= f) = (s.after edit).after (f a) :=
  congrArg Prod.snd (run_bind_ok h)

theorem after_bind_error {edit : Edit α} {f : α → Edit β} {s : Session} {reason : GraphError}
    (h : s.result edit = .error reason) : s.after (edit >>= f) = s.after edit :=
  congrArg Prod.snd (run_bind_error h)

theorem result_bind_ok {edit : Edit α} {f : α → Edit β} {s : Session} {a : α}
    (h : s.result edit = .ok a) : s.result (edit >>= f) = (s.after edit).result (f a) :=
  congrArg Prod.fst (run_bind_ok h)

theorem result_bind_error {edit : Edit α} {f : α → Edit β} {s : Session} {reason : GraphError}
    (h : s.result edit = .error reason) : s.result (edit >>= f) = .error reason :=
  congrArg Prod.fst (run_bind_error h)

theorem Keeps.pure (a : α) : Keeps P (Pure.pure a : Edit α) := fun _ hs => hs

theorem Keeps.throw (reason : GraphError) : Keeps P (throw reason : Edit α) := fun _ hs => hs

theorem Keeps.liftM (r : Except GraphError α) : Keeps P (liftM r : Edit α) := by
  cases r with
  | ok a => exact .pure a
  | error reason => exact .throw reason

theorem Keeps.bind {edit : Edit α} {f : α → Edit β} (h : Keeps P edit)
    (hf : ∀ a, Keeps P (f a)) : Keeps P (edit >>= f) := by
  intro s hs
  cases hr : s.result edit with
  | ok a =>
    rw [after_bind_ok hr]
    exact hf a _ (h s hs)
  | error reason =>
    rw [after_bind_error hr]
    exact h s hs

theorem Keeps.forM {f : α → Edit PUnit} (items : List α) (h : ∀ a, Keeps P (f a)) :
    Keeps P (items.forM f) := by
  induction items with
  | nil => exact .pure _
  | cons a items ih => exact (h a).bind fun _ => ih

theorem Keeps.tryCatch {edit : Edit α} {handler : GraphError → Edit α} (h : Keeps P edit)
    (hh : ∀ reason, Keeps P (handler reason)) : Keeps P (tryCatch edit handler) := by
  intro s hs
  simp only [Session.after]
  cases hr : s.result edit with
  | ok a =>
    rw [run_tryCatch_ok hr]
    exact h s hs
  | error reason =>
    rw [run_tryCatch_error hr]
    exact hh reason _ (h s hs)

theorem Keeps.tryAddEdge {e : Edge} (h : Keeps P (addEdge e)) : Keeps P (tryAddEdge e) :=
  .tryCatch (h.bind fun _ => .pure _) fun _ => .pure _

theorem Keeps.applyEdge {e : Edge} (h : Keeps P (addEdge e)) : Keeps P (applyEdge e) := by
  refine h.tryAddEdge.bind fun outcome => ?_
  cases outcome with
  | ok id => exact .pure _
  | error reason => exact .pure _

theorem Keeps.addEdges (h : ∀ e, Keeps P (addEdge e)) (edges : List Edge) :
    Keeps P (addEdges edges) := by
  induction edges with
  | nil => exact .pure _
  | cons e edges ih =>
    refine (h e).tryAddEdge.bind fun outcome => ih.bind fun report => ?_
    cases outcome with
    | ok id => exact .pure _
    | error reason => exact .pure _

theorem Keeps.load (hnode : ∀ id kind data, Keeps P (addNode id kind data))
    (hedge : ∀ e, Keeps P (addEdge e)) (d : PipelineDefinition) : Keeps P (load d) := by
  have hget : Keeps P (get : Edit Session) := fun _ hs => hs
  refine hget.bind fun s => (Keeps.liftM _).bind fun _ => ?_
  refine (Keeps.forM d.nodes fun node => ?_).bind fun _ => .addEdges hedge d.edges
  exact hnode node.id node.kind node.data

theorem Keeps.loadFrom {ε : Type} (hload : ∀ d, Keeps P (Edit.load d))
    (d : Except ε PipelineDefinition) : Keeps P (loadFrom d) := by
  cases d with
  | ok d => exact (hload d).bind fun _ => .pure _
  | error e => exact .pure _

theorem after_bind_pure {edit : Edit α} (f : α → β) (s : Session) :
    s.after (edit >>= fun a => Pure.pure (f a)) = s.after edit := by
  cases hr : s.result edit with
  | ok a =>
    rw [after_bind_ok hr]
    rfl
  | error reason => rw [after_bind_error hr]

theorem after_get_bind (f : Session → Edit α) (s : Session) : s.after (get >>= f) = s.after (f s) :=
  rfl

theorem after_set_bind (s' : Session) (f : PUnit → Edit α) (s : Session) :
    s.after (set s' >>= f) = s'.after (f ⟨⟩) := rfl

variable {config : GraphConfig}
open Session (Settled Sound)

theorem keeps_query {q : Graph → Query α} (hq : ∀ g : Graph, g.Valid → g.Steady (q g)) :
    Keeps (Sound config) (query q) := by
  intro s hs
  obtain ⟨r, hr⟩ := hq s.graph hs.valid
  exact ⟨⟨hs.config_eq, hs.valid, (hr s.cache hs.coherent).2⟩, hs.compatible⟩

theorem keeps_addNode (id : NodeId) (kind : String) (data : NodeData) :
    Keeps (Sound config) (addNode id kind data) := by
  intro s hs
  simp only [addNode]
  rw [after_get_bind]
  by_cases hnew : (s.graph.node? id).isSome
  · rw [if_pos hnew]
    exact hs
  · rw [if_neg hnew]
    have hnone : s.graph.node? id = none := by simpa using hnew
    cases s.graph.kinds.get? kind with
    | none => exact hs
    | some k =>
      refine ⟨⟨hs.config_eq, Graph.valid_appendNode hs.valid hnone,
        Graph.coherent_appendNode hs.valid _ hs.coherent⟩, fun hr => ?_⟩
      exact Graph.compatible_appendNode hs.valid (hs.compatible hr) hnone

theorem keeps_afterChange {s : Session} (hs : Settled config s) :
    Sound config (s.after afterChange) := by
  simp only [afterChange]
  rw [after_get_bind, hs.config_eq]
  by_cases hr : config.revalidateOnChange
  · rw [if_pos hr]
    exact hs.revalidate
  · rw [if_neg hr]
    exact ⟨hs, fun h => absurd h hr⟩

theorem keeps_removeNode (id : NodeId) : Keeps (Sound config) (removeNode id) := by
  intro s hs
  simp only [removeNode]
  rw [after_get_bind]
  cases hnode : s.graph.node? id with
  | none => exact hs
  | some node =>
    have hid := Graph.isSome_of_node? hnode
    rw [if_neg (by simp), after_get_bind, after_set_bind, after_bind_pure]
    exact keeps_afterChange ⟨hs.config_eq, Graph.valid_eraseNode hs.valid id,
      Graph.coherent_forget (Graph.agreeOn_eraseNode hs.valid hid) hs.coherent⟩

theorem keeps_updateNodeData (id : NodeId) (data : NodeData) :
    Keeps (Sound config) (updateNodeData id data) := by
  intro s hs
  simp only [updateNodeData]
  rw [after_get_bind]
  cases hnode : s.graph.node? id with
  | none => exact hs
  | some node =>
    have hid := Graph.isSome_of_node? hnode
    rw [if_neg (by simp), after_get_bind, after_set_bind]
    exact keeps_afterChange ⟨hs.config_eq, Graph.valid_setData hs.valid id data,
      Graph.coherent_forget (Graph.agreeOn_setData hs.valid hid data) hs.coherent⟩

theorem keeps_removeEdge (id : Nat) : Keeps (Sound config) (removeEdge id) := by
  intro s hs
  simp only [removeEdge]
  rw [after_get_bind]
  cases hedge : s.graph.edge? id with
  | none => exact hs
  | some e =>
    obtain ⟨he, rfl⟩ := Graph.edge?_eq_some hedge
    dsimp only
    rw [after_get_bind, after_set_bind]
    exact keeps_afterChange ⟨hs.config_eq, Graph.valid_eraseEdge hs.valid e.id,
      Graph.coherent_forget (Graph.agreeOn_eraseEdge hs.valid he) hs.coherent⟩

theorem keeps_revalidate : Keeps (Sound config) revalidate := fun _ hs => hs.toSettled.revalidate

theorem addEdge_of_ok {s : Session} {e : Edge}
    (h : (s.graph.checkEdge e).answer s.cache = .ok ()) :
    s.result (addEdge e) = .ok s.graph.nextEdge ∧
      s.after (addEdge e) = (s.asked (s.graph.checkEdge e)).committed e := by
  have hquery : s.result (query (·.checkEdge e)) = .ok () := h
  simp only [addEdge]
  rw [result_bind_ok hquery, after_bind_ok hquery]
  exact ⟨rfl, rfl⟩

theorem addEdge_of_error {s : Session} {e : Edge} {reason : GraphError}
    (h : (s.graph.checkEdge e).answer s.cache = .error reason) :
    s.result (addEdge e) = .error reason ∧
      s.after (addEdge e) = s.asked (s.graph.checkEdge e) := by
  have hquery : s.result (query (·.checkEdge e)) = .error reason := h
  simp only [addEdge]
  rw [result_bind_error hquery, after_bind_error hquery]
  exact ⟨rfl, rfl⟩

theorem keeps_addEdge (e : Edge) : Keeps (Sound config) (addEdge e) := by
  intro s hs
  have hasked := hs.toSettled.asked (Graph.steady_checkEdge hs.valid e)
  cases h : (s.graph.checkEdge e).answer s.cache with
  | error reason =>
    rw [(addEdge_of_error h).2]
    exact ⟨hasked, hs.compatible⟩
  | ok _ =>
    rw [(addEdge_of_ok h).2]
    refine ⟨hasked.committed (Graph.checkEdge_sound hs.valid hs.coherent h).1, fun hr => ?_⟩
    obtain ⟨r, hr, hadmits, -⟩ := Graph.checkEdge_exact hs.valid (hs.compatible hr) e
    rw [Session.graph_committed hasked.valid]
    exact (hadmits.1 ((hr s.cache hs.coherent).1.symm.trans h)).compatible

end Edit
end TypedFlow
