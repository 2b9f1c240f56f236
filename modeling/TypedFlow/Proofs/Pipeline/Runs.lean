import TypedFlow.Proofs.Pipeline.Session

/-!
# Runs

A run applies edits and asks questions in any order, from an empty graph on. Every run leaves a
sound session, from which follow what its graph satisfies (`run_keeps_invariant`), that the cache is
invisible (`answers_do_not_see_cache`), and that admission of an edge is exact
(`addEdge_admits_exactly`). A property of graphs that every step of every edit keeps is
`Graph.Stable`, and holds of the graph of every run (`Graph.Stable.invariant`).
-/
namespace TypedFlow

inductive Question
  | checkEdge (e : Edge)
  | proposeEdge (e : Edge)
  | outputType (id : NodeId) (socket : Nat)
  | inputType (id : NodeId) (socket : Nat)
  | declaredInputType (id : NodeId) (socket : Nat)
  | diagnostics

namespace Question

def Answer : Question → Type
  | .checkEdge _ => Unit
  | .proposeEdge _ => EdgeState
  | .outputType _ _ | .inputType _ _ | .declaredInputType _ _ => Ty
  | .diagnostics => List Diagnostic

def ask (g : Graph) : (q : Question) → Query q.Answer
  | .checkEdge e => g.checkEdge e
  | .proposeEdge e => g.proposeEdge e
  | .outputType id socket => g.outputType id socket
  | .inputType id socket => g.inputType id socket
  | .declaredInputType id socket => g.declaredInputType id socket
  | .diagnostics => g.diagnostics

theorem steady_ask {g : Graph} (hv : g.Valid) (q : Question) : g.Steady (q.ask g) := by
  cases q with
  | checkEdge e => exact Graph.steady_checkEdge hv e
  | proposeEdge e => exact Graph.steady_proposeEdge hv e
  | outputType id socket => exact Graph.steady_outputType hv id socket
  | inputType id socket => exact Graph.steady_inputType hv id socket
  | declaredInputType id socket => exact Graph.steady_declaredInputType hv id socket
  | diagnostics => exact Graph.steady_diagnostics hv

end Question

/-- What can be done to a session. -/
inductive Action : Type 1
  | addNode (id : NodeId) (kind : String) (data : NodeData)
  | removeNode (id : NodeId)
  | addEdge (e : Edge)
  | applyEdge (e : Edge)
  | removeEdge (id : Nat)
  | updateNodeData (id : NodeId) (data : NodeData)
  | load (d : PipelineDefinition)
  | loadFrom {ε : Type} (d : Except ε PipelineDefinition)
  | revalidate
  | ask (q : Question)

namespace Session
variable {config : GraphConfig} {s : Session}

/-- The session after an action, whether or not it succeeds. -/
def act (s : Session) : Action → Session
  | .addNode id kind data => s.after (Edit.addNode id kind data)
  | .removeNode id => s.after (Edit.removeNode id)
  | .addEdge e => s.after (Edit.addEdge e)
  | .applyEdge e => s.after (Edit.applyEdge e)
  | .removeEdge id => s.after (Edit.removeEdge id)
  | .updateNodeData id data => s.after (Edit.updateNodeData id data)
  | .load d => s.after (Edit.load d)
  | .loadFrom d => s.after (Edit.loadFrom d)
  | .revalidate => s.after Edit.revalidate
  | .ask q => s.after (Edit.query q.ask)

def run (s : Session) (actions : List Action) : Session := actions.foldl act s

/-- What single edits and questions keep, whether or not they succeed. -/
structure Invariant (P : Session → Prop) : Prop where
  addNode : ∀ id kind data, Edit.Keeps P (Edit.addNode id kind data)
  removeNode : ∀ id, Edit.Keeps P (Edit.removeNode id)
  addEdge : ∀ e, Edit.Keeps P (Edit.addEdge e)
  removeEdge : ∀ id, Edit.Keeps P (Edit.removeEdge id)
  updateNodeData : ∀ id data, Edit.Keeps P (Edit.updateNodeData id data)
  revalidate : Edit.Keeps P Edit.revalidate
  ask : ∀ q : Question, Edit.Keeps P (Edit.query q.ask)

theorem Invariant.act {P : Session → Prop} (h : Invariant P) (hs : P s) (a : Action) :
    P (s.act a) := by
  have hload : ∀ d, Edit.Keeps P (Edit.load d) := fun d => .load h.addNode h.addEdge d
  cases a with
  | addNode id kind data => exact h.addNode id kind data s hs
  | removeNode id => exact h.removeNode id s hs
  | addEdge e => exact h.addEdge e s hs
  | applyEdge e => exact (h.addEdge e).applyEdge s hs
  | removeEdge id => exact h.removeEdge id s hs
  | updateNodeData id data => exact h.updateNodeData id data s hs
  | load d => exact hload d s hs
  | loadFrom d => exact Edit.Keeps.loadFrom hload d s hs
  | revalidate => exact h.revalidate s hs
  | ask q => exact h.ask q s hs

theorem Invariant.run {P : Session → Prop} (h : Invariant P) (hs : P s) (actions : List Action) :
    P (s.run actions) := by
  induction actions generalizing s with
  | nil => exact hs
  | cons a actions ih => exact ih (h.act hs a)

theorem invariant_sound (config : GraphConfig) : Invariant (Sound config) where
  addNode := Edit.keeps_addNode
  removeNode := Edit.keeps_removeNode
  addEdge := Edit.keeps_addEdge
  removeEdge := Edit.keeps_removeEdge
  updateNodeData := Edit.keeps_updateNodeData
  revalidate := Edit.keeps_revalidate
  ask := fun q => Edit.keeps_query fun _ hv => Question.steady_ask hv q

theorem Sound.run (h : Sound config s) (actions : List Action) : Sound config (s.run actions) :=
  (invariant_sound config).run h actions

end Session

/-- What a change of nodes or of edges keeps, whichever it is. -/
structure Graph.Stable (P : Graph → Prop) : Prop where
  appendNode : ∀ {g : Graph} {name : String} {kind : NodeKind}, P g →
    g.kinds.get? name = some kind → ∀ id data, P (g.appendNode (kind.instantiate id data))
  eraseNode : ∀ {g : Graph}, P g → ∀ id, P (g.eraseNode id)
  setData : ∀ {g : Graph}, P g → ∀ id data, P (g.setData id data)
  withEdges : ∀ {g : Graph}, P g → ∀ edges nextEdge, P { g with edges, nextEdge }

namespace Graph.Stable
variable {P : Graph → Prop} (h : Stable P)
include h

theorem replay_one (state : Session × List DroppedEdge) (hs : P state.1.graph) (e : CommittedEdge) :
    P ( Session.readmit state e).1.graph := by
  obtain ⟨s, dropped⟩ := state
  unfold Session.readmit
  dsimp only
  rw [Session.runQuery_eq]
  cases (s.graph.checkEdge e.toEdge).answer s.cache with
  | error reason => exact hs
  | ok _ => exact h.withEdges hs _ _

theorem replay (state : Session × List DroppedEdge) (hs : P state.1.graph)
    (rest : List CommittedEdge) : P (rest.foldl Session.readmit state).1.graph := by
  induction rest generalizing state with
  | nil => exact hs
  | cons e rest ih => exact ih _ (h.replay_one state hs e)

open Edit

theorem keeps_addNode (id : NodeId) (kind : String) (data : NodeData) :
    Keeps (fun s => P s.graph) (addNode id kind data) := by
  intro s hs
  simp only [addNode]
  rw [after_get_bind]
  by_cases hnew : (s.graph.node? id).isSome
  · rw [if_pos hnew]
    exact hs
  · rw [if_neg hnew]
    cases hkind : s.graph.kinds.get? kind with
    | none => exact hs
    | some k => exact h.appendNode hs hkind id data

theorem keeps_revalidate : Keeps (fun s => P s.graph) revalidate := fun s hs =>
  h.replay _ (h.withEdges hs [] s.graph.nextEdge) _

theorem keeps_afterChange : Keeps (fun s => P s.graph) afterChange := by
  intro s hs
  simp only [afterChange]
  rw [after_get_bind]
  by_cases hr : s.graph.config.revalidateOnChange
  · rw [if_pos hr]
    exact h.keeps_revalidate s hs
  · rw [if_neg hr]
    exact hs

theorem keeps_removeNode (id : NodeId) : Keeps (fun s => P s.graph) (removeNode id) := by
  intro s hs
  simp only [removeNode]
  rw [after_get_bind]
  by_cases hnode : (s.graph.node? id).isNone
  · rw [if_pos hnode]
    exact hs
  · rw [if_neg hnode, after_get_bind, after_set_bind, after_bind_pure]
    exact h.keeps_afterChange _ (h.eraseNode hs id)

theorem keeps_updateNodeData (id : NodeId) (data : NodeData) :
    Keeps (fun s => P s.graph) (updateNodeData id data) := by
  intro s hs
  simp only [updateNodeData]
  rw [after_get_bind]
  by_cases hnode : (s.graph.node? id).isNone
  · rw [if_pos hnode]
    exact hs
  · rw [if_neg hnode, after_get_bind, after_set_bind]
    exact h.keeps_afterChange _ (h.setData hs id data)

theorem keeps_removeEdge (id : Nat) : Keeps (fun s => P s.graph) (removeEdge id) := by
  intro s hs
  simp only [removeEdge]
  rw [after_get_bind]
  cases s.graph.edge? id with
  | none => exact hs
  | some e =>
    dsimp only
    rw [after_get_bind, after_set_bind]
    exact h.keeps_afterChange _ (h.withEdges hs _ _)

theorem keeps_addEdge (e : Edge) : Keeps (fun s => P s.graph) (addEdge e) := by
  have hquery : Keeps (fun s => P s.graph) (query (·.checkEdge e)) := fun _ hs => hs
  exact hquery.bind fun _ _ hs => h.withEdges hs _ _

/-- Whatever runs in a session keeps it. -/
theorem invariant : Session.Invariant fun s => P s.graph where
  addNode := h.keeps_addNode
  removeNode := h.keeps_removeNode
  addEdge := h.keeps_addEdge
  removeEdge := h.keeps_removeEdge
  updateNodeData := h.keeps_updateNodeData
  revalidate := h.keeps_revalidate
  ask := fun _ _ hs => hs

end Graph.Stable

theorem Graph.stable_scope (scope : Scope) : Graph.Stable (·.scope = scope) where
  appendNode h _ _ _ := h
  eraseNode h _ := h
  setData h _ _ := h
  withEdges h _ _ := h

namespace Session
variable {config : GraphConfig} {s : Session}

/-- Building a graph ends with one that has neither nodes nor edges. -/
theorem create_eq {scope : Scope} {kinds : List NodeKind} {aliases : List (String × String)}
    {g : Graph} (h : Graph.create scope config kinds aliases = .ok g) :
    ∃ registered, g = ⟨scope, registered, config, [], [], 0⟩ := by
  simp only [Graph.create] at h
  cases hkinds : Graph.registerKinds scope kinds with
  | error e =>
    rw [hkinds] at h
    cases h
  | ok registered =>
    rw [hkinds] at h
    change (aliases.foldlM Graph.registerAlias registered >>= fun kinds =>
      Except.ok ⟨scope, kinds, config, [], [], 0⟩) = .ok g at h
    cases haliases : aliases.foldlM Graph.registerAlias registered with
    | error e =>
      rw [haliases] at h
      cases h
    | ok all =>
      rw [haliases] at h
      cases h
      exact ⟨all, rfl⟩

theorem sound_new {scope : Scope} {kinds : List NodeKind} {aliases : List (String × String)}
    {g : Graph} (h : Graph.create scope config kinds aliases = .ok g) :
    Sound config (Session.new g) := by
  obtain ⟨registered, rfl⟩ := create_eq h
  refine ⟨⟨rfl, ?_, Graph.coherent_nil⟩, fun _ e he => absurd he List.not_mem_nil⟩
  refine ⟨.nil, .nil, fun e he => absurd he List.not_mem_nil,
    fun e he => absurd he List.not_mem_nil, ?_, fun _ _ _ _ => Nat.zero_le _⟩
  intro id hcycle
  obtain ⟨_, ⟨e, he, -⟩, -⟩ := Relation.TransGen.head'_iff.1 hcycle
  cases he

end Session

/-! A small pipeline: a switch that says "on", a relay that passes on what it gets, and a lamp that
takes "off" only. The relay may be joined to the lamp first, but not to the switch after that. -/

def switchKind : NodeKind := ⟨"switch", .input, [], [⟨"out", some (.string "on")⟩]⟩

def relayKind : NodeKind :=
  ⟨"relay", .transform, [⟨"in", none, none⟩], [⟨"out", some (.name "Input0")⟩]⟩

def lampKind : NodeKind := ⟨"lamp", .output, [⟨"in", some (.string "off"), none⟩], []⟩

def lampGraph : Graph :=
  ⟨[], [("lamp", lampKind), ("relay", relayKind), ("switch", switchKind)], .default, [], [], 0⟩

theorem create_lampGraph :
    Graph.create [] .default [switchKind, relayKind, lampKind] [] = .ok lampGraph := rfl

def relayToLamp : List Action :=
  [.addNode "s" "switch" [], .addNode "r" "relay" [], .addNode "l" "lamp" [],
    .addEdge ⟨"r", 0, "l", 0⟩]

section Runs
variable {scope : Scope} {config : GraphConfig} {kinds : List NodeKind}
  {aliases : List (String × String)} {g : Graph}

/-- Every run keeps the graph valid and, where each change is followed by a revalidation, leaves
only edges whose types fit. -/
theorem run_keeps_invariant (h : Graph.create scope config kinds aliases = .ok g)
    (actions : List Action) :
    ((Session.new g).run actions).graph.Valid ∧
      (config.revalidateOnChange = true → ((Session.new g).run actions).graph.Compatible) := by
  have hsound := (Session.sound_new h).run actions
  exact ⟨hsound.valid, hsound.compatible⟩

theorem relayToLamp_keeps_invariant :
    ((Session.new lampGraph).run relayToLamp).graph.edges.map (·.id) = [0] ∧
      ((Session.new lampGraph).run relayToLamp).graph.Valid ∧
      ((Session.new lampGraph).run relayToLamp).graph.Compatible :=
  ⟨by decide +kernel, (run_keeps_invariant create_lampGraph relayToLamp).1,
    (run_keeps_invariant create_lampGraph relayToLamp).2 rfl⟩

/-- Where each change is followed by a revalidation, an edge is added exactly when the graph with it
is sound in every respect; then this graph is the next, and else the graph stays as it is and the
error names the first respect in which it would not be sound. -/
theorem addEdge_admits_exactly (h : Graph.create scope config kinds aliases = .ok g)
    (hconfig : config.revalidateOnChange = true) (actions : List Action) (e : Edge) :
    let s := (Session.new g).run actions
    ((∃ id, s.result (Edit.addEdge e) = .ok id) ↔ s.graph.Admits e) ∧
    (∀ id, s.result (Edit.addEdge e) = .ok id →
      id = s.graph.nextEdge ∧ (s.after (Edit.addEdge e)).graph = s.graph.plus e) ∧
    ∀ reason, s.result (Edit.addEdge e) = .error reason →
      (s.after (Edit.addEdge e)).graph = s.graph ∧ s.graph.Refusal e reason := by
  intro s
  have hsound := (Session.sound_new h).run actions
  obtain ⟨r, hr, hadmits, hrefusal⟩ :=
    Graph.checkEdge_exact hsound.valid (hsound.compatible hconfig) e
  have hanswer := (hr s.cache hsound.coherent).1
  cases r with
  | ok _ =>
    obtain ⟨hresult, hafter⟩ := Edit.addEdge_of_ok hanswer
    rw [hresult, hafter]
    refine ⟨⟨fun _ => hadmits.1 rfl, fun _ => ⟨_, rfl⟩⟩, fun id hid => ?_, fun _ herror => ?_⟩
    · cases hid
      exact ⟨rfl, Session.graph_committed hsound.valid e⟩
    · cases herror
  | error reason =>
    obtain ⟨hresult, hafter⟩ := Edit.addEdge_of_error hanswer
    rw [hresult, hafter]
    refine ⟨⟨fun ⟨_, hid⟩ => ?_, fun hadmit => ?_⟩, fun _ hid => ?_, fun other herror => ?_⟩
    · cases hid
    · cases hadmits.2 hadmit
    · cases hid
    · cases herror
      exact ⟨rfl, hrefusal reason rfl⟩

/-- The switch is refused, and for the edge that is already behind the relay. -/
theorem switch_is_refused :
    let s := (Session.new lampGraph).run relayToLamp
    ¬ s.graph.Admits ⟨"s", 0, "r", 0⟩ ∧ ∃ produced accepted, s.graph.Refusal ⟨"s", 0, "r", 0⟩
      (.disjointType ⟨"r", 0, "l", 0⟩ produced accepted) := by
  intro s
  have hresult : (match s.result (Edit.addEdge ⟨"s", 0, "r", 0⟩) with
      | .error (.disjointType e _ _) => decide (e = ⟨"r", 0, "l", 0⟩)
      | _ => false) = true := by decide +kernel
  obtain ⟨hiff, -, herror⟩ :=
    addEdge_admits_exactly create_lampGraph rfl relayToLamp ⟨"s", 0, "r", 0⟩
  split at hresult
  · rename_i e produced accepted heq
    obtain rfl := of_decide_eq_true hresult
    refine ⟨fun hadmits => ?_, produced, accepted, (herror _ heq).2⟩
    obtain ⟨id, hid⟩ := hiff.2 hadmits
    cases heq.symm.trans hid
  · cases hresult

/-- After every run, a question is answered as on a graph that never had a cache, whichever edge is
to come next, and what is cached are the types of a node over fresh types of its sources. -/
theorem answers_do_not_see_cache (h : Graph.create scope config kinds aliases = .ok g)
    (actions : List Action) :
    let s := (Session.new g).run actions
    (∀ (q : Question) (next : Nat),
      (q.ask s.graph).answer s.cache = (q.ask { s.graph with nextEdge := next }).fresh) ∧
    ∀ id types, s.cache.get? id = some types → ∃ node flows, s.graph.node? id = some node ∧
      s.graph.freshFlows id = .ok flows ∧ types = .compute s.graph node flows := by
  intro s
  have hsound := (Session.sound_new h).run actions
  constructor
  · intro q next
    have hask : q.ask { s.graph with nextEdge := next } = q.ask s.graph := by
      cases q <;> rfl
    obtain ⟨r, hr⟩ := Question.steady_ask hsound.valid q
    rw [hask, (hr s.cache hsound.coherent).1, hr.fresh_eq]
  · intro id types hget
    exact (hsound.coherent id types hget).eq_compute hsound.valid

/-- A refused edge leaves types in the cache, and removing the edge to the lamp lets it in. -/
theorem relay_answers_without_cache :
    let s := (Session.new lampGraph).run (relayToLamp ++
      [.applyEdge ⟨"s", 0, "r", 0⟩, .removeEdge 0, .applyEdge ⟨"s", 0, "r", 0⟩,
        .ask (.inputType "r" 0)])
    s.cache.map (·.1) = ["r", "s"] ∧
      (s.graph.outputType "r" 0).answer s.cache = (s.graph.outputType "r" 0).fresh := by
  intro s
  refine ⟨by decide +kernel, ?_⟩
  exact (answers_do_not_see_cache create_lampGraph (relayToLamp ++ _)).1
    (.outputType "r" 0) s.graph.nextEdge

end Runs
end TypedFlow
