import TypedFlow.Proofs.Pipeline.Runs

/-!
# Exact revalidation

A revalidation takes all edges out and puts back, those of earlier sources first, what still fits.
When an edge comes to its check, everything that can change what its source produces is back, and
nothing behind its target is; so the check asks no more than whether the edge fits, and the verdict
holds to the end. What is kept are therefore the edges that fit in the graph that results, and a
second revalidation finds nothing to drop.
-/
namespace TypedFlow
open Relation (ReflTransGen TransGen)

namespace Graph
variable {g g' : Graph}

/-- An edge was dropped for types that are disjoint, with all types computed anew. -/
def Clashes (g : Graph) (d : DroppedEdge) : Prop :=
  ∃ produced accepted, g.Carries d.edge.toEdge produced ∧ g.Accepts d.edge.toEdge accepted ∧
    produced.isDisjoint accepted = true ∧
    d.reason = .disjointType d.edge.toEdge produced accepted

theorem Clashes.congr {kept : NodeId → Prop} (hagree : AgreeOn kept g g') {d : DroppedEdge}
    (h : g.Clashes d) (hs : kept d.edge.source)
    (ht : g'.node? d.edge.target = g.node? d.edge.target) : g'.Clashes d := by
  obtain ⟨produced, accepted, hc, ha, hrest⟩ := h
  exact ⟨produced, accepted, hc.congr hagree hs, ha.congr hagree.scope hagree.config ht, hrest⟩

theorem Clashes.not_fits (hv : g.Valid) {d : DroppedEdge} (h : g.Clashes d) :
    ¬ g.Fits d.edge.toEdge := by
  obtain ⟨produced, accepted, hc, ha, hdisjoint, -⟩ := h
  rw [fits_iff hv hc ha, hdisjoint]
  exact Bool.noConfusion

/-- Where no committed edge starts behind it, an edge has only its own types to answer for. -/
theorem settles_checkEdge_last (hv : g.Valid) (hcompat : g.Compatible) {e : Edge}
    (hjoins : e.Joins g) (hlast : ∀ c ∈ g.edges, c.source ∉ g.downstream e.target) :
    g.Settles (g.checkEdge e) (g.checkFit e) := by
  obtain ⟨types, htypes⟩ := exists_types (valid_plus hv hjoins)
  have htrial : OnTrial g e types := ⟨hv, hcompat, hjoins, htypes⟩
  have hown : (g.plus e).checkFit e = g.checkFit e :=
    checkFit_congr htrial.agreeOn hv htrial.valid_plus hjoins.attached htrial.source_not_mem rfl
  have hothers : ((g.rechecked e).forM fun c => (g.plus e).checkFit c.toEdge) = .ok ⟨⟩ := by
    refine forM_eq_ok_iff.2 fun c hc => ?_
    have hmem := ((mem_rechecked hv).1 hc).1
    exact htrial.checkFit_outside hmem (hlast c hmem)
  have hsettles := settles_checkEdge hv hcompat hjoins
  rw [hown, hothers] at hsettles
  cases hfit : g.checkFit e with
  | ok _ => rwa [hfit] at hsettles
  | error _ => rwa [hfit] at hsettles

theorem nodup_of_ascending {edges : List CommittedEdge}
    (h : (edges.map (·.id)).Pairwise (· < ·)) : edges.Nodup := by
  have hids : (edges.map (·.id)).Nodup := h.imp Nat.ne_of_lt
  exact List.Nodup.of_map _ hids

/-- Edges are listed by id, so a list of them is known by its members. -/
theorem edges_ext {edges edges' : List CommittedEdge}
    (h : (edges.map (·.id)).Pairwise (· < ·)) (h' : (edges'.map (·.id)).Pairwise (· < ·))
    (hmem : ∀ e, e ∈ edges ↔ e ∈ edges') : edges = edges' := by
  have hperm :=
    (List.perm_ext_iff_of_nodup (nodup_of_ascending h) (nodup_of_ascending h')).2 hmem
  rw [List.pairwise_map] at h h'
  exact hperm.eq_of_pairwise (fun a b _ _ hab hba => absurd hab (Nat.lt_asymm hba)) h h'

/-- Of the edges that a valid graph may lack, each can be joined to it again. -/
theorem joins_of_subset (hv : g.Valid) (hv' : g'.Valid) (hgraph : g' = { g with edges := g'.edges })
    (hsubset : ∀ c ∈ g'.edges, c ∈ g.edges) {e : CommittedEdge} (he : e ∈ g.edges)
    (hnew : e ∉ g'.edges) : e.toEdge.Joins g' := by
  have hnode : ∀ id, g'.node? id = g.node? id := fun id => by rw [hgraph]; rfl
  have harity : ∀ socket, g'.arityOf socket = g.arityOf socket := fun socket => by rw [hgraph]; rfl
  refine ⟨attached_congr (hv.attached e he) (hnode _) (hnode _), fun hreach => ?_, ?_⟩
  · have hback : ReflTransGen g.Feeds e.target e.source :=
      ReflTransGen.mono (fun _ _ hf => feeds_mono hsubset hf) _ _ hreach
    exact hv.acyclic e.source (.head' ⟨e, he, rfl, rfl⟩ hback)
  · intro socket hsocket
    have hinput : g.input? e.target e.targetSocket = some socket := by
      rw [← hsocket]
      simp only [input?]
      rw [hnode]
    have hsub : e :: g'.connections e.target e.targetSocket ⊆
        g.connections e.target e.targetSocket := by
      intro c hc
      simp only [connections, incoming, List.mem_cons, List.mem_filter] at hc ⊢
      rcases hc with rfl | ⟨⟨hc, ht⟩, hs⟩
      · exact ⟨⟨he, by simp⟩, by simp⟩
      · exact ⟨⟨hsubset c hc, ht⟩, hs⟩
    have hnodup : (e :: g'.connections e.target e.targetSocket).Nodup := by
      refine List.nodup_cons.2 ⟨fun hmem => ?_, ?_⟩
      · simp only [connections, incoming, List.mem_filter] at hmem
        exact hnew hmem.1.1
      · exact ((nodup_of_ascending hv'.edges_ascending).filter _).filter _
    have hle := (hnodup.subperm hsub).length_le
    rw [harity]
    exact Nat.le_trans hle (hv.arity _ _ socket hinput)

/-- A graph whose edges all fit has lost none of them to a graph in which only edges that do not fit
are missing. -/
theorem edges_eq_of_compatible (hv : g.Valid) (hcompat : g.Compatible) (hv' : g'.Valid)
    (hgraph : g' = { g with edges := g'.edges }) (hsubset : ∀ c ∈ g'.edges, c ∈ g.edges)
    (hkept : ∀ e ∈ g.edges, g'.Fits e.toEdge → e ∈ g'.edges) : g'.edges = g.edges := by
  have hnode : ∀ id, g'.node? id = g.node? id := fun id => by rw [hgraph]; rfl
  refine edges_ext hv'.edges_ascending hv.edges_ascending fun e => ⟨hsubset e, ?_⟩
  -- By induction on the place of the source: everything that it depends on is there.
  induction hplace : g.executionOrder.idxOf e.source using Nat.strongRecOn generalizing e with
  | ind n ih =>
    subst hplace
    intro he
    have hagree : AgreeOn (fun a => g.executionOrder.idxOf a ≤ g.executionOrder.idxOf e.source)
        g g' := by
      refine ⟨by rw [hgraph], by rw [hgraph], fun id _ => hnode id, fun id hid => ?_, ?_⟩
      · simp only [incoming]
        refine edges_ext ?_ ?_ fun c => ?_
        · exact hv'.edges_ascending.sublist (List.filter_sublist.map _)
        · exact hv.edges_ascending.sublist (List.filter_sublist.map _)
        · simp only [List.mem_filter, beq_iff_eq, and_congr_left_iff]
          rintro rfl
          refine ⟨hsubset c, fun hc => ih _ ?_ c rfl hc⟩
          exact Nat.lt_of_lt_of_le (idxOf_source_lt hv hc) hid
      · intro id hid c hc
        obtain ⟨hmem, rfl⟩ := mem_incoming.1 hc
        exact Nat.le_trans (Nat.le_of_lt (idxOf_source_lt hv hmem)) hid
    have hfit := (hcompat e he).congr hagree hv hv' (hv.attached e he) (Nat.le_refl _) (hnode _)
    exact hkept e he hfit

end Graph

namespace Session
variable {config : GraphConfig} {g : Graph} {s : Session} {done : List CommittedEdge}
  {dropped : List DroppedEdge}

/-- What has become of the edges that have been replayed: they are committed again, or dropped for
types that are disjoint as things are now. -/
structure Replayed (g : Graph) (done : List CommittedEdge) (s : Session)
    (dropped : List DroppedEdge) : Prop where
  graph_eq : s.graph = { g with edges := s.graph.edges }
  accounted : (s.graph.edges ++ dropped.map (·.edge)).Perm done
  clashes : ∀ d ∈ dropped, s.graph.Clashes d

/-- Replaying one more edge settles its fate and no other's. -/
theorem Replayed.step (hv : g.Valid) {e : CommittedEdge} {rest : List CommittedEdge}
    (h : Replaying config g (e :: rest) s) (hr : Replayed g done s dropped) (he : e ∈ g.edges)
    (hdone : ∀ c ∈ done, g.executionOrder.idxOf c.source ≤ g.executionOrder.idxOf e.source) :
    Replayed g (done ++ [e]) ( readmit (s, dropped) e).1 ( readmit (s, dropped) e).2 := by
  have hnew := h.id_not_mem
  have hjoins : e.toEdge.Joins s.graph := Graph.joins_of_subset hv h.valid hr.graph_eq h.subset he
    fun hmem => hnew (List.mem_map_of_mem hmem)
  have hsettles := Graph.settles_checkEdge_last h.valid h.compatible hjoins fun c hc =>
    h.not_downstream hv he (h.earlier c hc e List.mem_cons_self).2
  have hanswer := (hsettles s.cache h.coherent).1
  unfold readmit
  dsimp only
  rw [runQuery_eq, hanswer]
  cases hfit : s.graph.checkFit e.toEdge with
  | ok _ =>
    dsimp only
    have hagree := Graph.agreeOn_withEdge h.valid hnew (Graph.isSome_target hjoins.attached)
    refine ⟨?_, ?_, fun d hd => ?_⟩
    · change s.graph.withEdge e = { g with edges := (s.graph.withEdge e).edges }
      simp only [Graph.withEdge]
      rw [hr.graph_eq]
    · have hperm := (Graph.perm_insertEdge hnew).append_right (dropped.map (·.edge))
      exact (hperm.trans (hr.accounted.cons e)).trans (List.perm_append_singleton e done).symm
    · have hmem : d.edge ∈ done :=
        hr.accounted.mem_iff.1 (List.mem_append_right _ (List.mem_map_of_mem hd))
      exact (hr.clashes d hd).congr hagree (h.not_downstream hv he (hdone _ hmem)) rfl
  | error reason =>
    dsimp only
    refine ⟨hr.graph_eq, ?_, fun d hd => ?_⟩
    · rw [List.map_append, ← List.append_assoc]
      exact hr.accounted.append_right [e]
    · rcases List.mem_append.1 hd with hd | hd
      · exact hr.clashes d hd
      · obtain rfl := List.mem_singleton.1 hd
        obtain ⟨produced, hc⟩ := Graph.exists_carries h.valid hjoins.attached
        obtain ⟨accepted, ha⟩ := Graph.exists_accepts hjoins.attached
        rw [Graph.checkFit_eq h.valid hc ha, Graph.checkDisjoint] at hfit
        split at hfit
        · rename_i hdisjoint
          cases hfit
          exact ⟨produced, accepted, hc, ha, hdisjoint, rfl⟩
        · cases hfit

theorem Replayed.replay (hv : g.Valid) {rest : List CommittedEdge}
    (h : Replaying config g rest s) (hr : Replayed g done s dropped)
    (hmem : ∀ e ∈ rest, e ∈ g.edges)
    (horder : (done ++ rest).Pairwise fun e c => e.id ≠ c.id ∧
      g.executionOrder.idxOf e.source ≤ g.executionOrder.idxOf c.source) :
    Replayed g (done ++ rest) (rest.foldl readmit (s, dropped)).1
      (rest.foldl readmit (s, dropped)).2 := by
  induction rest generalizing s dropped done with
  | nil => simpa using hr
  | cons e rest ih =>
    have he := hmem e List.mem_cons_self
    have hsplit := List.pairwise_append.1 horder
    have hrest := (List.pairwise_cons.1 hsplit.2.1).1
    have hstep := hr.step hv h he fun c hc => (hsplit.2.2 c hc e List.mem_cons_self).2
    have heq : done ++ e :: rest = (done ++ [e]) ++ rest := by simp
    rw [heq] at horder ⊢
    exact ih (h.step hv he hrest dropped) hstep (fun c hc => hmem c (List.mem_cons_of_mem e hc))
      horder

theorem start_replaying (hv : g.Valid) :
    Replaying g.config g (replayOrder g) ⟨{ g with edges := [] }, []⟩ := by
  refine ⟨⟨rfl, Graph.valid_noEdges hv, Graph.coherent_nil⟩, ?_, rfl, ?_, ?_⟩
  all_goals exact fun c hc => absurd hc List.not_mem_nil

/-- What a revalidation leaves and what it drops, in terms of the graph that it leaves. -/
theorem revalidate_spec (hv : g.Valid) (cache : TypeCache) :
    let s := (revalidate ⟨g, cache⟩).1
    s.graph.Valid ∧ s.graph.Compatible ∧
      Replayed g g.edges s (revalidate ⟨g, cache⟩).2 := by
  have hperm : (replayOrder g).Perm g.edges := List.mergeSort_perm _ _
  have hmem : ∀ e ∈ replayOrder g, e ∈ g.edges := fun e he => hperm.mem_iff.1 he
  have horder := replayOrder_pairwise hv
  have hend := (start_replaying hv).replay hv hmem horder []
  have hstart : Replayed g [] ⟨{ g with edges := [] }, []⟩ [] :=
    ⟨rfl, .refl _, fun d hd => absurd hd List.not_mem_nil⟩
  have hall := hstart.replay hv (start_replaying hv) hmem horder
  exact ⟨hend.valid, hend.compatible, hall.graph_eq, hall.accounted.trans hperm, hall.clashes⟩

theorem Replayed.mem_iff_fits (hr : Replayed g g.edges s dropped) (hv : s.graph.Valid)
    (hcompat : s.graph.Compatible) {e : CommittedEdge} (he : e ∈ g.edges) :
    e ∈ s.graph.edges ↔ s.graph.Fits e.toEdge := by
  refine ⟨hcompat e, fun hfit => ?_⟩
  rcases List.mem_append.1 (hr.accounted.mem_iff.2 he) with hmem | hmem
  · exact hmem
  · obtain ⟨d, hd, rfl⟩ := List.mem_map.1 hmem
    exact absurd hfit ((hr.clashes d hd).not_fits hv)

/-- Where all edges fit, a revalidation changes nothing but the cache. -/
theorem revalidate_of_compatible (hv : g.Valid) (hcompat : g.Compatible) (cache : TypeCache) :
    (revalidate ⟨g, cache⟩).1.graph = g ∧ (revalidate ⟨g, cache⟩).2 = [] := by
  obtain ⟨hv', hcompat', hr⟩ := revalidate_spec hv cache
  have hsubset : ∀ c ∈ (revalidate ⟨g, cache⟩).1.graph.edges, c ∈ g.edges := fun c hc =>
    hr.accounted.mem_iff.1 (List.mem_append_left _ hc)
  have hedges := Graph.edges_eq_of_compatible hv hcompat hv' hr.graph_eq hsubset
    fun e he hfit => (hr.mem_iff_fits hv' hcompat' he).2 hfit
  constructor
  · rw [hr.graph_eq, hedges]
  · have hlength := hr.accounted.length_eq
    rw [hedges, List.length_append, List.length_map] at hlength
    exact List.eq_nil_of_length_eq_zero (by omega)

/-- The session whose next edge gets another id. -/
def numbered (next : Nat) (s : Session) : Session :=
  { s with graph := { s.graph with nextEdge := next } }

theorem readmit_numbered (next : Nat) (e : CommittedEdge) :
    readmit (s.numbered next, dropped) e =
      (( readmit (s, dropped) e).1.numbered next, ( readmit (s, dropped) e).2) := by
  have hquery : (s.numbered next).runQuery (·.checkEdge e.toEdge) =
      ((s.runQuery (·.checkEdge e.toEdge)).1,
        (s.runQuery (·.checkEdge e.toEdge)).2.numbered next) := rfl
  simp only [ readmit]
  rw [hquery]
  cases s.runQuery (·.checkEdge e.toEdge) with
  | mk result s' =>
    cases result with
    | ok _ => rfl
    | error _ => rfl

/-- Which id is next does not matter to a revalidation. -/
theorem revalidate_numbered (next : Nat) (s : Session) :
    (s.numbered next).revalidate = (s.revalidate.1.numbered next, s.revalidate.2) := by
  have hfold : ∀ (rest : List CommittedEdge) (s : Session) (dropped : List DroppedEdge),
      rest.foldl readmit (s.numbered next, dropped) =
        ((rest.foldl readmit (s, dropped)).1.numbered next, (rest.foldl readmit (s, dropped)).2) := by
    intro rest
    induction rest with
    | nil => exact fun _ _ => rfl
    | cons e rest ih =>
      intro s dropped
      rw [List.foldl_cons, readmit_numbered, ih]
      rfl
  exact hfold (replayOrder s.graph) ⟨{ s.graph with edges := [] }, []⟩ []

theorem nextEdge_revalidate (s : Session) : s.revalidate.1.graph.nextEdge = s.graph.nextEdge :=
  congrArg (·.1.graph.nextEdge) (revalidate_numbered s.graph.nextEdge s)

/-- Graphs that differ in the next id only are equal if it is the same after all. -/
theorem eq_of_numbered {g g' : Graph} {next : Nat}
    (h : ({ g with nextEdge := next } : Graph) = { g' with nextEdge := next })
    (hnext : g.nextEdge = g'.nextEdge) : g = g' := by
  cases g
  cases g'
  cases hnext
  cases h
  rfl

end Session

section Exactness
variable {s : Session}

/-- A revalidation keeps, in place, exactly the edges that fit in the graph that results. It reports
each other edge once, with the types that are disjoint there, and changes nothing else; and after it
another one changes and reports nothing. Which edge id is next is not asked. -/
theorem revalidate_keeps_what_fits {next : Nat}
    (hv : Graph.Valid { s.graph with nextEdge := next }) :
    ∃ report, s.result Edit.revalidate = .ok report ∧
      let t := s.after Edit.revalidate
      t.graph = { s.graph with edges := t.graph.edges } ∧
      (∀ e ∈ s.graph.edges, e ∈ t.graph.edges ↔ t.graph.Fits e.toEdge) ∧
      report.removed = [] ∧
      (t.graph.edges ++ report.dropped.map (·.edge)).Perm s.graph.edges ∧
      (∀ d ∈ report.dropped, ∃ produced accepted,
        (t.graph.outputType d.edge.source d.edge.sourceSocket).fresh = .ok produced ∧
        (t.graph.declaredInputType d.edge.target d.edge.targetSocket).fresh = .ok accepted ∧
        produced.isDisjoint accepted = true ∧
        d.reason = .disjointType d.edge.toEdge produced accepted) ∧
      t.result Edit.revalidate = .ok ⟨[], []⟩ ∧ (t.after Edit.revalidate).graph = t.graph := by
  have hspec := Session.revalidate_spec hv s.cache
  have hnumbered := Session.revalidate_numbered next s
  simp only [Session.numbered] at hnumbered
  rw [hnumbered] at hspec
  obtain ⟨hv', hcompat', hr⟩ := hspec
  have hgraph : s.revalidate.1.graph = { s.graph with edges := s.revalidate.1.graph.edges } :=
    Session.eq_of_numbered hr.graph_eq (Session.nextEdge_revalidate s)
  refine ⟨⟨[], s.revalidate.2⟩, rfl, hgraph, ?_, rfl, hr.accounted, ?_, ?_⟩
  · exact fun e he => hr.mem_iff_fits hv' hcompat' he
  · intro d hd
    obtain ⟨produced, accepted, hc, ha, hdisjoint, hreason⟩ := hr.clashes d hd
    exact ⟨produced, accepted, (hc.settles hv').fresh_eq, (ha.settles hv').fresh_eq, hdisjoint,
      hreason⟩
  · have hagain := Session.revalidate_of_compatible hv' hcompat' s.revalidate.1.cache
    have hnumbered := Session.revalidate_numbered next s.revalidate.1
    simp only [Session.numbered] at hnumbered
    rw [hnumbered] at hagain
    have hresult : s.revalidate.1.result Edit.revalidate =
        .ok ⟨[], s.revalidate.1.revalidate.2⟩ := rfl
    have hnone : s.revalidate.1.revalidate.2 = [] := hagain.2
    refine ⟨?_, Session.eq_of_numbered hagain.1 (Session.nextEdge_revalidate _)⟩
    change s.revalidate.1.result Edit.revalidate = .ok ⟨[], []⟩
    rw [hresult, hnone]

end Exactness

deriving instance DecidableEq for CommittedEdge

/-! A meter shows what its data say and a lamp takes "off" only; a relay stands between them. -/

def meterKind : NodeKind := ⟨"meter", .input, [], [⟨"out", some (.field (.name "data") "say")⟩]⟩

def meterGraph : Graph :=
  ⟨[], [("lamp", lampKind), ("meter", meterKind), ("relay", relayKind)],
    { GraphConfig.default with revalidateOnChange := false }, [], [], 0⟩

theorem create_meterGraph : Graph.create [] meterGraph.config [meterKind, relayKind, lampKind] [] =
    .ok meterGraph := rfl

/-- The meter says "off" until everything is connected. -/
def meterOn : List Action :=
  [.addNode "m" "meter" [("say", .string "off")], .addNode "r" "relay" [], .addNode "l" "lamp" [],
    .addEdge ⟨"r", 0, "l", 0⟩, .addEdge ⟨"m", 0, "r", 0⟩,
    .updateNodeData "m" [("say", .string "on")]]

/-- The edge behind the relay no longer fits and is dropped, the one before it stays. -/
theorem meterOn_drops_relay :
    let s := (Session.new meterGraph).run meterOn
    s.graph.Valid ∧ s.graph.edges = [⟨⟨"r", 0, "l", 0⟩, 0⟩, ⟨⟨"m", 0, "r", 0⟩, 1⟩] ∧
      (s.after Edit.revalidate).graph.edges = [⟨⟨"m", 0, "r", 0⟩, 1⟩] ∧
      ¬ (s.after Edit.revalidate).graph.Fits ⟨"r", 0, "l", 0⟩ := by
  intro s
  have hv : s.graph.Valid := ((Session.sound_new create_meterGraph).run meterOn).valid
  have hedges : s.graph.edges = [⟨⟨"r", 0, "l", 0⟩, 0⟩, ⟨⟨"m", 0, "r", 0⟩, 1⟩] := by
    decide +kernel
  have horder : s.graph.executionOrder = ["m", "r", "l"] := by decide +kernel
  have hreplay : Session.replayOrder s.graph = [⟨⟨"m", 0, "r", 0⟩, 1⟩, ⟨⟨"r", 0, "l", 0⟩, 0⟩] := by
    simp [Session.replayOrder, hedges, horder, List.mergeSort, List.MergeSort.Internal.splitInTwo,
      List.idxOf_cons]
  have hkept : (s.after Edit.revalidate).graph.edges = [⟨⟨"m", 0, "r", 0⟩, 1⟩] := by
    change s.revalidate.1.graph.edges = _
    rw [Session.revalidate, hreplay]
    decide +kernel
  obtain ⟨report, -, -, hiff, -⟩ := @revalidate_keeps_what_fits s s.graph.nextEdge hv
  refine ⟨hv, hedges, hkept, fun hfit => ?_⟩
  have hmem := (hiff ⟨⟨"r", 0, "l", 0⟩, 0⟩ (by simp [hedges])).2 hfit
  simp [hkept] at hmem

end TypedFlow
