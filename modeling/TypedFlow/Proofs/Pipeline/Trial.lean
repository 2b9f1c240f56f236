import TypedFlow.Proofs.Pipeline.Fitting

/-!
# Trial typing

An edge is checked before it is committed: the nodes that it would affect are typed on the side,
and all others are taken as they are. `plus` is the graph that the edge would lead to. On a
compatible graph the trial settles exactly as checking, in that other graph and with all types
computed anew, the committed edges that end at affected nodes (`settles_checkDownstream`).
-/
namespace TypedFlow
open Relation (ReflTransGen TransGen)

namespace Graph
variable {g : Graph} {e : Edge}

/-- The graph with one more edge, committed under the next id. -/
def plus (g : Graph) (e : Edge) : Graph := { g with
  edges := g.edges ++ [{ e with id := g.nextEdge }]
  nextEdge := g.nextEdge + 1 }

theorem valid_bump (hv : g.Valid) : Valid { g with nextEdge := g.nextEdge + 1 } where
  nodes_nodup := hv.nodes_nodup
  edges_ascending := hv.edges_ascending
  edge_lt c hc := Nat.lt_succ_of_lt (hv.edge_lt c hc)
  attached c hc := attached_congr (hv.attached c hc) rfl rfl
  acyclic := hv.acyclic
  arity := hv.arity

theorem attached_plus (hjoins : e.Joins g) : e.Attached (g.plus e) :=
  attached_congr hjoins.attached rfl rfl

theorem attached_plus_of_mem (hv : g.Valid) {c : CommittedEdge} (hc : c ∈ g.edges) :
    c.toEdge.Attached (g.plus e) :=
  attached_congr (hv.attached c hc) rfl rfl

theorem nextEdge_not_mem (hv : g.Valid) : g.nextEdge ∉ g.edges.map (·.id) := by
  intro hmem
  obtain ⟨c, hc, heq⟩ := List.mem_map.1 hmem
  exact Nat.ne_of_lt (hv.edge_lt c hc) heq

theorem plus_eq_withEdge (hv : g.Valid) : g.plus e =
    ({ g with nextEdge := g.nextEdge + 1 } : Graph).withEdge { e with id := g.nextEdge } := by
  simp only [plus, withEdge]
  rw [insertEdge_of_lt fun c hc => hv.edge_lt c hc]

theorem mem_edges_plus {c : CommittedEdge} :
    c ∈ (g.plus e).edges ↔ c ∈ g.edges ∨ c = { e with id := g.nextEdge } := by
  simp [plus]

theorem incoming_plus (id : NodeId) : (g.plus e).incoming id =
    g.incoming id ++ if id = e.target then [{ e with id := g.nextEdge }] else [] := by
  simp only [incoming, plus]
  rw [List.filter_append, List.filter_singleton]
  by_cases hid : id = e.target
  · simp [hid]
  · have hne : (e.target == id) = false := beq_eq_false_iff_ne.2 (Ne.symm hid)
    rw [if_neg hid, hne, cond_false]

theorem valid_plus (hv : g.Valid) (hjoins : e.Joins g) : (g.plus e).Valid := by
  rw [plus_eq_withEdge hv]
  exact valid_withEdge (valid_bump hv) (nextEdge_not_mem hv) (Nat.lt_succ_self _)
    ⟨attached_congr hjoins.attached rfl rfl, hjoins.acyclic, hjoins.room⟩

theorem acyclic_plus_iff (hv : g.Valid) :
    (g.plus e).Acyclic ↔ ¬ ReflTransGen g.Feeds e.target e.source := by
  rw [plus_eq_withEdge hv]
  exact acyclic_withEdge_iff (nextEdge_not_mem hv) hv.acyclic

theorem agreeOn_plus (hv : g.Valid) (ht : (g.node? e.target).isSome) :
    AgreeOn (· ∉ g.downstream e.target) g (g.plus e) := by
  have hself := mem_downstream_self hv ht
  refine agreeOn_of_downstream hv rfl rfl (fun _ _ => rfl) fun a ha => ?_
  have hne : a ≠ e.target := fun heq => ha (heq ▸ hself)
  rw [incoming_plus, if_neg hne, List.append_nil]

/-- The committed edges whose targets an edge would affect, in the order in which they are checked
again. -/
def rechecked (g : Graph) (e : Edge) : List CommittedEdge :=
  (g.executionOrder.filter (g.downstream e.target).contains).flatMap g.incoming

/-- What has been tried so far are the types in the graph with the edge. -/
def Tried (types : NodeId → NodeTypes) (before : List NodeId) (trial : Trial) : Prop :=
  ∀ a, Entries.get? trial a = if a ∈ before then some (types a).outputs else none

theorem Tried.nil (types : NodeId → NodeTypes) : Tried types [] [] := fun _ => rfl

theorem Tried.cons {types : NodeId → NodeTypes} {before : List NodeId} {trial : Trial}
    (h : Tried types before trial) (id : NodeId) :
    Tried types (before ++ [id]) ((id, (types id).outputs) :: trial) := by
  intro a
  rw [Entries.get?_cons, h a]
  by_cases ha : id = a
  · subst ha
    simp
  · have hiff : a ∈ before ++ [id] ↔ a ∈ before := by simp [Ne.symm ha]
    rw [if_neg ha]
    simp only [hiff]

theorem trialType?_of_mem {types : NodeId → NodeTypes} {before : List NodeId} {trial : Trial}
    (h : Tried types before trial) {c : CommittedEdge} (hc : c.source ∈ before) :
    trialType? trial c = some ((types c.source).output c.sourceSocket) := by
  rw [trialType?, h, if_pos hc]
  rfl

theorem trialType?_of_not_mem {types : NodeId → NodeTypes} {before : List NodeId} {trial : Trial}
    (h : Tried types before trial) {c : CommittedEdge} (hc : c.source ∉ before) :
    trialType? trial c = none := by
  rw [trialType?, h, if_neg hc]
  rfl

theorem Carries.output_eq {produced : Ty} (h : g.Carries e produced) {types : NodeTypes}
    (htypes : g.Typed e.source types) :
    types.outputs[e.sourceSocket]? = some produced ∧ types.output e.sourceSocket = produced := by
  obtain ⟨found, hfound, hsocket⟩ := h
  obtain rfl := hfound.unique htypes
  exact ⟨hsocket, by rw [NodeTypes.output, hsocket]; rfl⟩

theorem settles_forM_liftM {α : Type} {f next : α → Except GraphError PUnit} {items : List α}
    (h : ∀ a ∈ items, f a = next a) :
    g.Settles (items.forM fun a => liftM (f a)) (items.forM next) :=
  settles_forM fun a ha => h a ha ▸ settles_liftM (f a)

/-- What the trial relies on: `types` are those in the graph with the edge. -/
structure OnTrial (g : Graph) (e : Edge) (types : NodeId → NodeTypes) : Prop where
  valid : g.Valid
  compatible : g.Compatible
  joins : e.Joins g
  typed : ∀ id, (g.node? id).isSome → (g.plus e).Typed id (types id)

section Trial
variable {types : NodeId → NodeTypes} (h : OnTrial g e types)
include h

theorem OnTrial.agreeOn : AgreeOn (· ∉ g.downstream e.target) g (g.plus e) :=
  agreeOn_plus h.valid (isSome_target h.joins.attached)

theorem OnTrial.valid_plus : (g.plus e).Valid := Graph.valid_plus h.valid h.joins

/-- The edge comes from outside of what it affects. -/
theorem OnTrial.source_not_mem : e.source ∉ g.downstream e.target := fun hmem =>
  h.joins.acyclic ((mem_downstream_iff h.valid).1 hmem).2

theorem OnTrial.types_eq {id : NodeId} {node : Node} (hnode : g.node? id = some node) :
    types id = .compute g node ((g.plus e).flows types id) := by
  have hs : ∀ c ∈ (g.plus e).incoming id, (g.plus e).Typed c.source (types c.source) := by
    intro c hc
    have hsource : ((g.plus e).node? c.source).isSome :=
      isSome_source (h.valid_plus.attached c (mem_incoming.1 hc).1)
    exact h.typed c.source hsource
  rw [← @compute_congr g (g.plus e) rfl rfl]
  exact (h.typed id (isSome_of_node? hnode)).unique (.node hnode hs)

/-- Outside of what the edge affects the committed types are those of the trial. -/
theorem OnTrial.settles_outside {c : CommittedEdge} (hc : c ∈ g.edges)
    (hout : c.source ∉ g.downstream e.target) :
    g.Settles (g.outputType c.source c.sourceSocket)
      (.ok ((types c.source).output c.sourceSocket)) := by
  have hattached := h.valid.attached c hc
  obtain ⟨produced, hcarries⟩ := exists_carries h.valid hattached
  have hplus := hcarries.congr h.agreeOn hout
  rw [(hplus.output_eq (h.typed c.source (isSome_source hattached))).2]
  exact hcarries.settles h.valid

theorem OnTrial.checkFit_outside {c : CommittedEdge} (hc : c ∈ g.edges)
    (hout : c.source ∉ g.downstream e.target) : (g.plus e).checkFit c.toEdge = .ok () := by
  have hattached := h.valid.attached c hc
  rw [checkFit_congr h.agreeOn h.valid h.valid_plus hattached hout rfl]
  exact (checkFit_eq_ok_iff h.valid hattached).2 (h.compatible c hc)

variable {before : List NodeId} {trial : Trial} (htried : Tried types before trial)
include htried

theorem OnTrial.settles_trialType {c : CommittedEdge} (hc : c ∈ g.edges)
    (hsource : c.source ∈ before ∨ c.source ∉ g.downstream e.target) :
    g.Settles (g.trialType trial c) (.ok ((types c.source).output c.sourceSocket)) := by
  simp only [trialType]
  by_cases hbefore : c.source ∈ before
  · rw [trialType?_of_mem htried hbefore]
    exact settles_pure _
  · rw [trialType?_of_not_mem htried hbefore]
    exact h.settles_outside hc (hsource.resolve_left hbefore)

theorem OnTrial.checkTrial_eq {c : CommittedEdge} (hc : c ∈ g.edges)
    (hsource : c.source ∈ before ∨ c.source ∉ g.downstream e.target) :
    checkTrial trial (types c.target) c = (g.plus e).checkFit c.toEdge := by
  have hattached := h.valid.attached c hc
  simp only [checkTrial]
  by_cases hbefore : c.source ∈ before
  · have hplus := attached_plus_of_mem (e := e) h.valid hc
    obtain ⟨produced, hcarries⟩ := exists_carries h.valid_plus hplus
    obtain ⟨accepted, haccepts⟩ := exists_accepts hplus
    have hp := (hcarries.output_eq (h.typed c.source (isSome_source hattached))).2
    have ha := haccepts.of_typed (h.typed c.target (isSome_target hattached))
    rw [trialType?_of_mem htried hbefore, hp, ha, checkFit_eq h.valid_plus hcarries haccepts]
  · rw [trialType?_of_not_mem htried hbefore]
    exact (h.checkFit_outside hc (hsource.resolve_left hbefore)).symm

/-- Trying a node whose sources have been tried types it as in the graph with the edge, and checks
what ends there. -/
theorem OnTrial.settles_tryNode {produced : Ty} (hproduced : g.Carries e produced) {id : NodeId}
    (hid : (g.node? id).isSome)
    (hsources : ∀ c ∈ g.incoming id, c.source ∈ before ∨ c.source ∉ g.downstream e.target) :
    g.Settles (g.tryNode e produced trial id) (do
      (g.incoming id).forM fun c => (g.plus e).checkFit c.toEdge
      return (id, (types id).outputs) :: trial) := by
  obtain ⟨node, hnode⟩ := Option.isSome_iff_exists.1 hid
  have hflows : g.Settles
      ((g.incoming id).mapM fun c => return (c.targetSocket, ← g.trialType trial c))
      (.ok (g.flows types id)) := by
    refine settles_mapM_ok fun c hc => ?_
    exact (h.settles_trialType htried (mem_incoming.1 hc).1 (hsources c hc)).bind_ok
      (settles_pure _)
  have hadded : g.flows types id ++ (if id = e.target then [(e.targetSocket, produced)] else []) =
      (g.plus e).flows types id := by
    have hplus := hproduced.congr h.agreeOn h.source_not_mem
    have hp := (hplus.output_eq (h.typed e.source (isSome_source h.joins.attached))).2
    simp only [flows]
    rw [incoming_plus, List.map_append]
    by_cases htarget : id = e.target
    · rw [if_pos htarget, if_pos htarget, List.map_singleton, hp]
    · rw [if_neg htarget, if_neg htarget, List.map_nil]
  unfold tryNode
  rw [hnode]
  refine hflows.bind_ok ?_
  dsimp only
  rw [hadded, ← h.types_eq hnode]
  refine (settles_forM_liftM fun c hc => ?_).bind fun _ _ => settles_pure _
  obtain ⟨hmem, rfl⟩ := mem_incoming.1 hc
  exact h.checkTrial_eq htried hmem (hsources c hc)

theorem OnTrial.settles_tryAll {produced : Ty} (hproduced : g.Carries e produced)
    {rest : List NodeId} (hnode : ∀ a ∈ rest, (g.node? a).isSome)
    (horder : ∀ earlier id later, before ++ rest = earlier ++ id :: later →
      ∀ c ∈ g.incoming id, c.source ∈ earlier ∨ c.source ∉ g.downstream e.target) :
    ∃ r, g.Settles (rest.foldlM (g.tryNode e produced) trial) r ∧
      (r >>= fun _ => .ok ()) =
        (rest.flatMap g.incoming).forM fun c => (g.plus e).checkFit c.toEdge := by
  induction rest generalizing before trial with
  | nil => exact ⟨.ok trial, settles_pure _, rfl⟩
  | cons id rest ih =>
    have heq : before ++ id :: rest = (before ++ [id]) ++ rest := by simp
    have hstep := h.settles_tryNode htried hproduced (hnode id List.mem_cons_self)
      (horder before id rest rfl)
    rw [heq] at horder
    obtain ⟨r, hr, hcheck⟩ := ih (htried.cons id)
      (fun a ha => hnode a (List.mem_cons_of_mem id ha)) horder
    have happend : (g.incoming id ++ rest.flatMap g.incoming).forM
        (fun c => (g.plus e).checkFit c.toEdge) = (do
          (g.incoming id).forM fun c => (g.plus e).checkFit c.toEdge
          (rest.flatMap g.incoming).forM fun c => (g.plus e).checkFit c.toEdge) :=
      List.forM_append
    rw [List.foldlM_cons, List.flatMap_cons, happend, ← hcheck]
    cases hhere : (g.incoming id).forM fun c => (g.plus e).checkFit c.toEdge with
    | ok _ =>
      rw [hhere] at hstep
      exact ⟨r, hstep.bind_ok hr, rfl⟩
    | error reason =>
      rw [hhere] at hstep
      exact ⟨.error reason, hstep.bind_error, rfl⟩

end Trial

/-- Of a list with sources first, what an edge affects has its sources first or outside. -/
theorem sourcesFirst_filter {order : List NodeId} (h : g.SourcesFirst order)
    {affected : List NodeId} {before after : List NodeId} {id : NodeId}
    (heq : order.filter affected.contains = before ++ id :: after) :
    ∀ c ∈ g.incoming id, c.source ∈ before ∨ c.source ∉ affected := by
  intro c hc
  obtain ⟨left, right, rfl, rfl, hright⟩ := List.filter_eq_append_iff.1 heq
  obtain ⟨skipped, rest, rfl, hskipped, -, -⟩ := List.filter_eq_cons_iff.1 hright
  have hmem := h (left ++ skipped) id rest (by simp) c hc
  by_cases haffected : c.source ∈ affected
  · left
    rcases List.mem_append.1 hmem with hmem | hmem
    · exact List.mem_filter.2 ⟨hmem, List.contains_iff_mem.2 haffected⟩
    · exact absurd (List.contains_iff_mem.2 haffected) (hskipped _ hmem)
  · exact .inr haffected

theorem OnTrial.settles_checkDownstream {types : NodeId → NodeTypes} (h : OnTrial g e types)
    {produced : Ty} (hproduced : g.Carries e produced) :
    g.Settles (g.checkDownstream e produced)
      ((g.rechecked e).forM fun c => (g.plus e).checkFit c.toEdge) := by
  obtain ⟨r, hr, hcheck⟩ := @OnTrial.settles_tryAll g e types h [] [] (.nil types) produced
    hproduced (g.executionOrder.filter (g.downstream e.target).contains)
    (fun a ha => mem_executionOrder_iff.1 (List.mem_of_mem_filter ha))
    fun _ _ _ heq => sourcesFirst_filter (sourcesFirst_executionOrder h.valid) heq
  rw [rechecked, ← hcheck]
  exact hr.bind fun _ _ => settles_pure ()

end Graph
end TypedFlow
