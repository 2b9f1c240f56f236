import TypedFlow.Proofs.Pipeline.Change
import TypedFlow.Proofs.Pipeline.Query

/-!
# Edges that fit

An edge fits when, with all types computed anew, what its source produces is not disjoint from what
its target declares. What a socket declares depends on its node alone, and what a source produces
on the ancestors, so an edge keeps fitting under changes that reach neither.
-/
namespace TypedFlow
open Relation (ReflTransGen TransGen)

namespace Graph
variable {g g' : Graph} {e : Edge} {produced accepted : Ty}

/-- The types at both ends, computed without a cache, have values in common. -/
def Fits (g : Graph) (e : Edge) : Prop :=
  ∃ produced accepted, (g.outputType e.source e.sourceSocket).fresh = .ok produced ∧
    (g.declaredInputType e.target e.targetSocket).fresh = .ok accepted ∧
    produced.isDisjoint accepted = false

def Compatible (g : Graph) : Prop := ∀ e ∈ g.edges, g.Fits e.toEdge

/-- The verdict on an edge with all types computed anew. -/
def checkFit (g : Graph) (e : Edge) : Except GraphError Unit := do
  let produced ← (g.outputType e.source e.sourceSocket).fresh
  let accepted ← (g.declaredInputType e.target e.targetSocket).fresh
  checkDisjoint e produced accepted

def Carries (g : Graph) (e : Edge) (produced : Ty) : Prop :=
  ∃ types, g.Typed e.source types ∧ types.outputs[e.sourceSocket]? = some produced

def Accepts (g : Graph) (e : Edge) (accepted : Ty) : Prop :=
  ∃ node, g.node? e.target = some node ∧
    (NodeTypes.compute g node []).declaredInputs[e.targetSocket]? = some accepted

theorem length_outputs (node : Node) (flows : List (Nat × Ty)) :
    (NodeTypes.compute g node flows).outputs.length = node.outputs.length := by
  simp [NodeTypes.compute, NodeTypes.ofIncoming]

theorem length_declaredInputs (node : Node) (flows : List (Nat × Ty)) :
    (NodeTypes.compute g node flows).declaredInputs.length = node.inputs.length := by
  simp [NodeTypes.compute, NodeTypes.ofIncoming]

theorem exists_carries (hv : g.Valid) (h : e.Attached g) : ∃ produced, g.Carries e produced := by
  obtain ⟨node, hnode, hsocket⟩ := h.source
  obtain ⟨types, htypes⟩ := exists_typed hv (isSome_of_node? hnode)
  obtain ⟨flows, rfl⟩ : ∃ flows, types = .compute g node flows := by
    cases htypes with
    | node hn _ =>
      obtain rfl := Option.some.inj (hnode.symm.trans hn)
      exact ⟨_, rfl⟩
  have hlt : e.sourceSocket < (NodeTypes.compute g node flows).outputs.length := by
    rw [length_outputs]
    exact hsocket
  exact ⟨_, _, htypes, List.getElem?_eq_getElem hlt⟩

theorem exists_accepts (h : e.Attached g) : ∃ accepted, g.Accepts e accepted := by
  obtain ⟨node, hnode, hsocket⟩ := h.target
  have hlt : e.targetSocket < (NodeTypes.compute g node []).declaredInputs.length := by
    rw [length_declaredInputs]
    exact hsocket
  exact ⟨_, node, hnode, List.getElem?_eq_getElem hlt⟩

theorem Accepts.of_typed (h : g.Accepts e accepted) {types : NodeTypes}
    (htypes : g.Typed e.target types) : types.declaredInputs[e.targetSocket]? = some accepted := by
  obtain ⟨node, hnode, hsocket⟩ := h
  cases htypes with
  | node hn _ =>
    obtain rfl := Option.some.inj (hnode.symm.trans hn)
    exact hsocket

theorem Carries.congr {kept : NodeId → Prop} (hagree : AgreeOn kept g g') (h : g.Carries e produced)
    (hs : kept e.source) : g'.Carries e produced := by
  obtain ⟨types, htypes, hsocket⟩ := h
  exact ⟨types, htypes.congr hagree hs, hsocket⟩

theorem Accepts.congr (hscope : g'.scope = g.scope) (hconfig : g'.config = g.config)
    (hnode : g'.node? e.target = g.node? e.target) (h : g.Accepts e accepted) :
    g'.Accepts e accepted := by
  obtain ⟨node, hn, hsocket⟩ := h
  refine ⟨node, by rw [hnode, hn], ?_⟩
  rw [compute_congr hscope hconfig]
  exact hsocket

section Answers
variable (hv : g.Valid)
include hv

theorem Carries.settles (h : g.Carries e produced) :
    g.Settles (g.outputType e.source e.sourceSocket) (.ok produced) := by
  obtain ⟨types, htypes, hsocket⟩ := h
  exact settles_outputType hv htypes hsocket

theorem Accepts.settles (h : g.Accepts e accepted) :
    g.Settles (g.declaredInputType e.target e.targetSocket) (.ok accepted) := by
  obtain ⟨node, hnode, -⟩ := id h
  obtain ⟨types, htypes⟩ := exists_typed hv (isSome_of_node? hnode)
  exact settles_declaredInputType hv htypes (h.of_typed htypes)

theorem checkFit_eq (hc : g.Carries e produced) (ha : g.Accepts e accepted) :
    g.checkFit e = checkDisjoint e produced accepted := by
  simp only [checkFit]
  rw [(hc.settles hv).fresh_eq, (ha.settles hv).fresh_eq]
  rfl

theorem fits_iff (hc : g.Carries e produced) (ha : g.Accepts e accepted) :
    g.Fits e ↔ produced.isDisjoint accepted = false := by
  simp only [Fits]
  rw [(hc.settles hv).fresh_eq, (ha.settles hv).fresh_eq]
  constructor
  · intro hh
    obtain ⟨_, _, hp, hq, hfit⟩ := hh
    cases hp
    cases hq
    exact hfit
  · intro hfit
    exact ⟨produced, accepted, rfl, rfl, hfit⟩

end Answers

/-- What flows into a node, with the types of its sources computed without a cache. -/
def freshFlows (g : Graph) (id : NodeId) : Except GraphError (List (Nat × Ty)) :=
  (g.incoming id).mapM fun e => do
    return (e.targetSocket, ← (g.outputType e.source e.sourceSocket).fresh)

theorem Typed.eq_compute (hv : g.Valid) {id : NodeId} {types : NodeTypes} (h : g.Typed id types) :
    ∃ node flows, g.node? id = some node ∧ g.freshFlows id = .ok flows ∧
      types = .compute g node flows := by
  cases h with
  | @node _ node sources hnode hsources =>
    refine ⟨node, g.flows sources id, hnode, mapM_eq_ok fun e he => ?_, rfl⟩
    obtain ⟨produced, hc⟩ := exists_carries hv (hv.attached e (mem_incoming.1 he).1)
    have hfresh := (hc.settles hv).fresh_eq
    obtain ⟨found, hfound, hsocket⟩ := hc
    obtain rfl := hfound.unique (hsources e he)
    rw [hfresh, NodeTypes.output, hsocket]
    rfl

theorem checkDisjoint_eq_ok_iff :
    checkDisjoint e produced accepted = .ok () ↔ produced.isDisjoint accepted = false := by
  simp only [checkDisjoint]
  cases produced.isDisjoint accepted <;> simp

theorem checkFit_eq_ok_iff (hv : g.Valid) (h : e.Attached g) : g.checkFit e = .ok () ↔ g.Fits e := by
  obtain ⟨produced, hc⟩ := exists_carries hv h
  obtain ⟨accepted, ha⟩ := exists_accepts h
  rw [checkFit_eq hv hc ha, checkDisjoint_eq_ok_iff, fits_iff hv hc ha]

/-- The only fault that an edge between existing sockets can have is that its types are disjoint. -/
theorem checkFit_error (hv : g.Valid) (h : e.Attached g) {r : GraphError}
    (hr : g.checkFit e = .error r) :
    ∃ produced accepted, (g.outputType e.source e.sourceSocket).fresh = .ok produced ∧
      (g.declaredInputType e.target e.targetSocket).fresh = .ok accepted ∧
      produced.isDisjoint accepted = true ∧ r = .disjointType e produced accepted := by
  obtain ⟨produced, hc⟩ := exists_carries hv h
  obtain ⟨accepted, ha⟩ := exists_accepts h
  refine ⟨produced, accepted, (hc.settles hv).fresh_eq, (ha.settles hv).fresh_eq, ?_⟩
  rw [checkFit_eq hv hc ha] at hr
  simp only [checkDisjoint] at hr
  split at hr
  · rename_i hdisjoint
    cases hr
    exact ⟨hdisjoint, rfl⟩
  · cases hr

/-- An edge keeps its verdict where a change reaches neither its source nor the node at its end. -/
theorem checkFit_congr {kept : NodeId → Prop} (hagree : AgreeOn kept g g') (hv : g.Valid)
    (hv' : g'.Valid) (h : e.Attached g) (hs : kept e.source)
    (ht : g'.node? e.target = g.node? e.target) : g'.checkFit e = g.checkFit e := by
  obtain ⟨produced, hc⟩ := exists_carries hv h
  obtain ⟨accepted, ha⟩ := exists_accepts h
  rw [checkFit_eq hv hc ha,
    checkFit_eq hv' (hc.congr hagree hs) (ha.congr hagree.scope hagree.config ht)]

theorem Fits.congr {kept : NodeId → Prop} (hagree : AgreeOn kept g g') (hv : g.Valid)
    (hv' : g'.Valid) (h : e.Attached g) (hs : kept e.source)
    (ht : g'.node? e.target = g.node? e.target) (hfit : g.Fits e) : g'.Fits e := by
  have h' : e.Attached g' := attached_congr h (hagree.node e.source hs) ht
  rw [← checkFit_eq_ok_iff hv' h', checkFit_congr hagree hv hv' h hs ht]
  exact (checkFit_eq_ok_iff hv h).2 hfit

section Preservation
variable (hv : g.Valid) (hcompat : g.Compatible)
include hv hcompat

theorem compatible_appendNode {node : Node} (hnew : g.node? node.id = none) :
    (g.appendNode node).Compatible := by
  intro e he
  have hattached := hv.attached e he
  have hagree := agreeOn_appendNode hv node
  exact (hcompat e he).congr hagree hv (valid_appendNode hv hnew) hattached
    (isSome_source hattached) (hagree.node e.target (isSome_target hattached))

/-- A fitting edge into a node from which no edge leads on leaves all others fitting. -/
theorem compatible_withEdge {e : CommittedEdge} (h : e.id ∉ g.edges.map (·.id))
    (hv' : (g.withEdge e).Valid) (hjoins : e.toEdge.Joins g) (hfit : g.Fits e.toEdge)
    (hlast : ∀ other ∈ g.edges, other.source ∉ g.downstream e.target) :
    (g.withEdge e).Compatible := by
  have hagree := agreeOn_withEdge hv h (isSome_target hjoins.attached)
  have hself : e.source ∉ g.downstream e.target := fun hmem =>
    hjoins.acyclic ((mem_downstream_iff hv).1 hmem).2
  intro c hc
  rcases List.mem_cons.1 ((perm_insertEdge h).mem_iff.1 hc) with rfl | hc
  · exact hfit.congr hagree hv hv' hjoins.attached hself rfl
  · exact (hcompat c hc).congr hagree hv hv' (hv.attached c hc) (hlast c hc) rfl

end Preservation

end Graph
end TypedFlow
