import TypedFlow.Proofs.Pipeline.Trial

/-!
# Exact admission

An edge passes its checks on a valid and compatible graph exactly when the graph with the edge is
sound in every respect (`Admits`), and otherwise it is refused for the first respect in which it is
not (`Refusal`), although the checks never build that graph. Without compatibility an edge that
passes still joins the graph and fits there.
-/
namespace TypedFlow
open Relation (ReflTransGen TransGen)

theorem forM_eq_ok_iff {α ε : Type} {f : α → Except ε PUnit} {items : List α} :
    items.forM f = .ok ⟨⟩ ↔ ∀ a ∈ items, f a = .ok ⟨⟩ := by
  induction items with
  | nil => simp [List.forM_eq_forM, pure, Except.pure]
  | cons a items ih =>
    have hcons : (a :: items).forM f = f a >>= fun _ => items.forM f := rfl
    rw [hcons, List.forall_mem_cons, ← ih]
    cases ha : f a with
    | ok _ => exact ⟨fun h => ⟨rfl, h⟩, fun h => h.2⟩
    | error _ =>
      constructor
      · intro h
        cases h
      · intro hh
        obtain ⟨h, -⟩ := hh
        cases h

/-- A failing check is the first that fails. -/
theorem forM_eq_error {α ε : Type} {f : α → Except ε PUnit} {items : List α} {reason : ε}
    (h : items.forM f = .error reason) : ∃ before a after, items = before ++ a :: after ∧
      (∀ b ∈ before, f b = .ok ⟨⟩) ∧ f a = .error reason := by
  induction items with
  | nil => cases h
  | cons a items ih =>
    have hcons : (a :: items).forM f = f a >>= fun _ => items.forM f := rfl
    rw [hcons] at h
    cases ha : f a with
    | error other =>
      rw [ha] at h
      cases h
      exact ⟨[], a, items, rfl, fun _ hb => absurd hb List.not_mem_nil, ha⟩
    | ok _ =>
      rw [ha] at h
      obtain ⟨before, c, after, rfl, hbefore, hc⟩ := ih h
      refine ⟨a :: before, c, after, rfl, ?_, hc⟩
      intro b hb
      rcases List.mem_cons.1 hb with rfl | hb
      · exact ha
      · exact hbefore b hb

namespace Graph
variable {g : Graph} {e : Edge}

section Steadiness
variable (hv : g.Valid)
include hv

theorem steady_trialType (trial : Trial) (c : CommittedEdge) : g.Steady (g.trialType trial c) := by
  simp only [trialType]
  split
  · exact steady_pure _
  · exact steady_outputType hv _ _

theorem steady_tryNode (e : Edge) (produced : Ty) (trial : Trial) (id : NodeId) :
    g.Steady (g.tryNode e produced trial id) := by
  simp only [tryNode]
  split
  · exact steady_pure _
  · refine (steady_mapM _ fun c => (steady_trialType hv trial c).bind fun _ => ?_).bind fun _ => ?_
    · exact steady_pure _
    · exact (steady_forM _ fun _ => steady_liftM _).bind fun _ => steady_pure _

theorem steady_checkDownstream (e : Edge) (produced : Ty) :
    g.Steady (g.checkDownstream e produced) :=
  (steady_foldlM _ _ fun trial id => steady_tryNode hv e produced trial id).bind
    fun _ => steady_pure _

theorem steady_checkEdge (e : Edge) : g.Steady (g.checkEdge e) :=
  (steady_liftM _).bind fun _ => (steady_outputType hv _ _).bind fun _ =>
    (steady_declaredInputType hv _ _).bind fun _ => (steady_liftM _).bind fun _ =>
      steady_checkDownstream hv e _

theorem steady_proposeEdge (e : Edge) : g.Steady (g.proposeEdge e) :=
  steady_tryCatch ((steady_checkEdge hv e).bind fun _ => steady_pure _) fun _ => steady_pure _

theorem steady_diagnostics : g.Steady g.diagnostics := by
  refine (steady_mapM _ fun node => ?_).bind fun _ => steady_pure _
  exact (steady_nodeTypes hv node.id).bind fun _ => steady_pure _

end Steadiness

/-- The graph with an edge is sound in every respect. -/
structure Admits (g : Graph) (e : Edge) : Prop where
  source : e.HasSource (g.plus e)
  target : e.HasTarget (g.plus e)
  ne : e.source ≠ e.target
  acyclic : (g.plus e).Acyclic
  arity : ∀ id i socket, (g.plus e).input? id i = some socket →
    ((g.plus e).connections id i).length ≤ (g.plus e).arityOf socket
  compatible : (g.plus e).Compatible

/-- Why a graph does not admit an edge: the first check that fails, where each constructor says that
those before it pass. -/
inductive Refusal (g : Graph) (e : Edge) : GraphError → Prop
  | source (h : ¬ e.HasSource g) : Refusal g e (.danglingReference e.source .output e.sourceSocket)
  | target (hs : e.HasSource g) (h : ¬ e.HasTarget g) :
      Refusal g e (.danglingReference e.target .input e.targetSocket)
  | selfLoop (hs : e.HasSource g) (ht : e.HasTarget g) (h : e.source = e.target) :
      Refusal g e (.selfLoop e.source)
  | cycle (ha : e.Attached g) (h : ¬ (g.plus e).Acyclic) :
      Refusal g e (.cycle e.source e.target)
  | arity (ha : e.Attached g) (hacyclic : (g.plus e).Acyclic) {socket : InputSocket}
      (hsocket : g.input? e.target e.targetSocket = some socket)
      (h : g.arityOf socket < ((g.plus e).connections e.target e.targetSocket).length) :
      Refusal g e (.arityExceeded e.target e.targetSocket (g.arityOf socket))
  | own (hv : (g.plus e).Valid) {produced accepted : Ty}
      (hp : ((g.plus e).outputType e.source e.sourceSocket).fresh = .ok produced)
      (ha : ((g.plus e).declaredInputType e.target e.targetSocket).fresh = .ok accepted)
      (h : produced.isDisjoint accepted = true) : Refusal g e (.disjointType e produced accepted)
  | downstream (hv : (g.plus e).Valid) (hown : (g.plus e).Fits e)
      {before after : List CommittedEdge} {c : CommittedEdge}
      (hfirst : g.rechecked e = before ++ c :: after)
      (hbefore : ∀ b ∈ before, (g.plus e).Fits b.toEdge) {produced accepted : Ty}
      (hp : ((g.plus e).outputType c.source c.sourceSocket).fresh = .ok produced)
      (ha : ((g.plus e).declaredInputType c.target c.targetSocket).fresh = .ok accepted)
      (h : produced.isDisjoint accepted = true) :
      Refusal g e (.disjointType c.toEdge produced accepted)

section Shape

theorem hasOutput_iff : g.hasOutput e.source e.sourceSocket = true ↔ e.HasSource g := by
  simp only [hasOutput, Edge.HasSource]
  cases g.node? e.source <;> simp

theorem input?_eq_some_iff {id : NodeId} {i : Nat} {socket : InputSocket} :
    g.input? id i = some socket ↔ ∃ node, g.node? id = some node ∧ node.inputs[i]? = some socket := by
  simp only [input?]
  cases g.node? id <;> simp

theorem hasTarget_iff : e.HasTarget g ↔ ∃ socket, g.input? e.target e.targetSocket = some socket := by
  constructor
  · intro hh
    obtain ⟨node, hnode, hlt⟩ := hh
    exact ⟨_, input?_eq_some_iff.2 ⟨node, hnode, List.getElem?_eq_getElem hlt⟩⟩
  · intro hh
    obtain ⟨socket, hsocket⟩ := hh
    obtain ⟨node, hnode, hget⟩ := input?_eq_some_iff.1 hsocket
    exact ⟨node, hnode, (List.getElem?_eq_some_iff.1 hget).1⟩

theorem length_connections_plus : ((g.plus e).connections e.target e.targetSocket).length =
    (g.connections e.target e.targetSocket).length + 1 := by
  simp [connections, incoming_plus, List.filter_append]

theorem checkShape_eq : g.checkShape e =
    if g.hasOutput e.source e.sourceSocket then
      match g.input? e.target e.targetSocket with
      | none => .error (.danglingReference e.target .input e.targetSocket)
      | some socket =>
        if e.source = e.target then .error (.selfLoop e.source)
        else if (g.downstream e.target).contains e.source then .error (.cycle e.source e.target)
        else if g.arityOf socket ≤ (g.connections e.target e.targetSocket).length then
          .error (.arityExceeded e.target e.targetSocket (g.arityOf socket))
        else .ok ()
    else .error (.danglingReference e.source .output e.sourceSocket) := by
  simp only [checkShape]
  cases g.hasOutput e.source e.sourceSocket with
  | false => rfl
  | true =>
    cases g.input? e.target e.targetSocket with
    | none => rfl
    | some socket =>
      simp only [Bool.not_true, Bool.false_eq_true, if_false, if_true]
      split_ifs <;> rfl

variable (hv : g.Valid)
include hv

theorem Admits.joins (h : g.Admits e) : e.Joins g where
  attached := ⟨h.source, h.target, h.ne⟩
  acyclic := (acyclic_plus_iff hv).1 h.acyclic
  room socket hsocket := by
    have harity := h.arity _ _ socket hsocket
    rw [length_connections_plus] at harity
    exact harity

/-- The checks that do not concern types pass exactly where an edge joins the graph. -/
theorem checkShape_spec (e : Edge) : e.Joins g ∧ g.checkShape e = .ok () ∨
    ¬ e.Joins g ∧ ∃ reason, g.checkShape e = .error reason ∧ g.Refusal e reason := by
  rw [checkShape_eq]
  by_cases hs : e.HasSource g
  swap
  · rw [if_neg fun hout => hs (hasOutput_iff.1 hout)]
    exact .inr ⟨fun hj => hs hj.attached.source, _, rfl, .source hs⟩
  rw [if_pos (hasOutput_iff.2 hs)]
  by_cases ht : e.HasTarget g
  swap
  · have hinput : g.input? e.target e.targetSocket = none :=
      Option.eq_none_iff_forall_ne_some.2 fun socket hsocket => ht (hasTarget_iff.2 ⟨socket, hsocket⟩)
    rw [hinput]
    exact .inr ⟨fun hj => ht hj.attached.target, _, rfl, .target hs ht⟩
  obtain ⟨socket, hsocket⟩ := hasTarget_iff.1 ht
  rw [hsocket]
  dsimp only
  by_cases hne : e.source = e.target
  · rw [if_pos hne]
    exact .inr ⟨fun hj => hj.attached.ne hne, _, rfl, .selfLoop hs ht hne⟩
  rw [if_neg hne]
  have ha : e.Attached g := ⟨hs, ht, hne⟩
  have hreach : (g.downstream e.target).contains e.source = true ↔
      ReflTransGen g.Feeds e.target e.source := by
    rw [List.contains_iff_mem, mem_downstream_iff hv]
    exact and_iff_right (isSome_target ha)
  by_cases hcycle : ReflTransGen g.Feeds e.target e.source
  · rw [if_pos (hreach.2 hcycle)]
    exact .inr ⟨fun hj => hj.acyclic hcycle, _, rfl,
      .cycle ha fun hacyclic => (acyclic_plus_iff hv).1 hacyclic hcycle⟩
  rw [if_neg fun hc => hcycle (hreach.1 hc)]
  by_cases hroom : (g.connections e.target e.targetSocket).length < g.arityOf socket
  · rw [if_neg (Nat.not_le.2 hroom)]
    refine .inl ⟨⟨ha, hcycle, fun other hother => ?_⟩, rfl⟩
    obtain rfl := Option.some.inj (hsocket.symm.trans hother)
    exact hroom
  · rw [if_pos (Nat.not_lt.1 hroom)]
    refine .inr ⟨fun hj => hroom (hj.room socket hsocket), _, rfl, ?_⟩
    refine .arity ha ((acyclic_plus_iff hv).2 hcycle) hsocket ?_
    rw [length_connections_plus]
    exact Nat.lt_succ_of_le (Nat.not_lt.1 hroom)

end Shape

section Verdict
variable (hv : g.Valid)
include hv

/-- What passes its checks joins the graph and fits there. -/
theorem checkEdge_sound {cache : TypeCache} (hc : g.Coherent cache)
    (h : (g.checkEdge e).answer cache = .ok ()) : e.Joins g ∧ g.Fits e := by
  obtain ⟨_, hshape, h⟩ := Query.answer_bind_ok h
  have hjoins : e.Joins g := by
    rcases checkShape_spec hv e with ⟨hjoins, -⟩ | ⟨-, reason, herror, -⟩
    · exact hjoins
    · rw [herror] at hshape
      cases hshape
  refine ⟨hjoins, ?_⟩
  obtain ⟨produced, hcarries⟩ := exists_carries hv hjoins.attached
  obtain ⟨accepted, haccepts⟩ := exists_accepts hjoins.attached
  -- Each part of the check settles, so it leaves a coherent cache to the next.
  have hc₁ := (settles_liftM (g.checkShape e) cache hc).2
  obtain ⟨p, hp, h⟩ := Query.answer_bind_ok h
  obtain ⟨hp', hc₂⟩ := hcarries.settles hv _ hc₁
  cases hp.symm.trans hp'
  obtain ⟨a, ha, h⟩ := Query.answer_bind_ok h
  obtain ⟨ha', hc₃⟩ := haccepts.settles hv _ hc₂
  cases ha.symm.trans ha'
  obtain ⟨_, hdisjoint, -⟩ := Query.answer_bind_ok h
  have hsettled := (settles_liftM (g := g) (checkDisjoint e produced accepted) _ hc₃).1
  rw [fits_iff hv hcarries haccepts, ← checkDisjoint_eq_ok_iff, ← hsettled]
  exact hdisjoint

theorem mem_rechecked {c : CommittedEdge} :
    c ∈ g.rechecked e ↔ c ∈ g.edges ∧ c.target ∈ g.downstream e.target := by
  simp only [rechecked]
  rw [List.mem_flatMap]
  constructor
  · intro hh
    obtain ⟨id, hid, hc⟩ := hh
    obtain ⟨hmem, rfl⟩ := mem_incoming.1 hc
    exact ⟨hmem, List.contains_iff_mem.1 (List.mem_filter.1 hid).2⟩
  · intro hh
    obtain ⟨hmem, htarget⟩ := hh
    refine ⟨c.target, List.mem_filter.2 ⟨?_, List.contains_iff_mem.2 htarget⟩,
      mem_incoming.2 ⟨hmem, rfl⟩⟩
    exact mem_executionOrder_iff.2 (isSome_target (hv.attached c hmem))

/-- The edges that are checked with an edge are all that it could make unfit. -/
theorem compatible_plus_iff (hcompat : g.Compatible) (hjoins : e.Joins g) :
    (g.plus e).Compatible ↔
      (g.plus e).Fits e ∧ ∀ c ∈ g.rechecked e, (g.plus e).Fits c.toEdge := by
  have hv' := valid_plus hv hjoins
  have hagree := agreeOn_plus hv (isSome_target hjoins.attached)
  constructor
  · intro h
    constructor
    · exact h { e with id := g.nextEdge } (mem_edges_plus.2 (.inr rfl))
    · intro c hc
      exact h c (mem_edges_plus.2 (.inl ((mem_rechecked hv).1 hc).1))
  · rintro ⟨hown, hrest⟩ c hc
    rcases mem_edges_plus.1 hc with hc | rfl
    · by_cases htarget : c.target ∈ g.downstream e.target
      · exact hrest c ((mem_rechecked hv).2 ⟨hc, htarget⟩)
      · -- Its source is not affected either.
        have hsource := hagree.source c.target htarget c (mem_incoming.2 ⟨hc, rfl⟩)
        exact (hcompat c hc).congr hagree hv hv' (hv.attached c hc) hsource rfl
    · exact hown

theorem attached_of_mem_rechecked {c : CommittedEdge} (hc : c ∈ g.rechecked e) :
    c.toEdge.Attached (g.plus e) :=
  attached_plus_of_mem hv ((mem_rechecked hv).1 hc).1

theorem settles_checkEdge (hcompat : g.Compatible) (hjoins : e.Joins g) :
    g.Settles (g.checkEdge e) (do
      (g.plus e).checkFit e
      (g.rechecked e).forM fun c => (g.plus e).checkFit c.toEdge) := by
  have hv' := valid_plus hv hjoins
  obtain ⟨types, htypes⟩ := exists_types hv'
  have htrial : OnTrial g e types := ⟨hv, hcompat, hjoins, htypes⟩
  obtain ⟨produced, hcarries⟩ := exists_carries hv hjoins.attached
  obtain ⟨accepted, haccepts⟩ := exists_accepts hjoins.attached
  have hshape : g.checkShape e = .ok () := by
    rcases checkShape_spec hv e with ⟨-, hok⟩ | ⟨hnot, -⟩
    · exact hok
    · exact absurd hjoins hnot
  have hown : (g.plus e).checkFit e = checkDisjoint e produced accepted :=
    checkFit_eq hv' (hcarries.congr htrial.agreeOn htrial.source_not_mem)
      (haccepts.congr rfl rfl rfl)
  simp only [checkEdge]
  rw [hshape, hown]
  refine (settles_liftM _).bind_ok ?_
  refine (hcarries.settles hv).bind_ok ?_
  refine (haccepts.settles hv).bind_ok ?_
  exact (settles_liftM _).bind fun _ _ => htrial.settles_checkDownstream hcarries

/-- The fit of the edge itself, then that of each edge looked at again, decides. -/
theorem fits_eq_ok_iff (hcompat : g.Compatible) (hjoins : e.Joins g) :
    (do
      (g.plus e).checkFit e
      (g.rechecked e).forM fun c => (g.plus e).checkFit c.toEdge) = .ok () ↔ g.Admits e := by
  have hv' := valid_plus hv hjoins
  have hattached := attached_plus hjoins
  have hadmits : g.Admits e ↔ (g.plus e).Compatible := by
    refine ⟨fun h => h.compatible, fun h => ?_⟩
    exact ⟨hattached.source, hattached.target, hattached.ne, hv'.acyclic, hv'.arity, h⟩
  rw [hadmits, compatible_plus_iff hv hcompat hjoins, ← checkFit_eq_ok_iff hv' hattached]
  cases hown : (g.plus e).checkFit e with
  | error _ =>
    constructor
    · intro h
      cases h
    · intro hh
      obtain ⟨h, -⟩ := hh
      cases h
  | ok _ =>
    refine (forM_eq_ok_iff).trans ⟨fun h => ⟨rfl, fun c hc => ?_⟩, fun h c hc => ?_⟩
    · exact (checkFit_eq_ok_iff hv' (attached_of_mem_rechecked hv hc)).1 (h c hc)
    · exact (checkFit_eq_ok_iff hv' (attached_of_mem_rechecked hv hc)).2 (h.2 c hc)

theorem refusal_of_fits_error (hjoins : e.Joins g) {reason : GraphError}
    (h : (do
      (g.plus e).checkFit e
      (g.rechecked e).forM fun c => (g.plus e).checkFit c.toEdge) = .error reason) :
    g.Refusal e reason := by
  have hv' := valid_plus hv hjoins
  have hattached := attached_plus hjoins
  cases hown : (g.plus e).checkFit e with
  | error other =>
    rw [hown] at h
    cases h
    obtain ⟨produced, accepted, hp, ha, hdisjoint, rfl⟩ := checkFit_error hv' hattached hown
    exact .own hv' hp ha hdisjoint
  | ok _ =>
    rw [hown] at h
    obtain ⟨before, c, after, hfirst, hbefore, hc⟩ := forM_eq_error h
    have hmem : c ∈ g.rechecked e := by simp [hfirst]
    obtain ⟨produced, accepted, hp, ha, hdisjoint, rfl⟩ :=
      checkFit_error hv' (attached_of_mem_rechecked hv hmem) hc
    refine .downstream hv' ((checkFit_eq_ok_iff hv' hattached).1 hown) hfirst ?_ hp ha hdisjoint
    intro b hb
    have hmem : b ∈ g.rechecked e := by simp [hfirst, hb]
    exact (checkFit_eq_ok_iff hv' (attached_of_mem_rechecked hv hmem)).1 (hbefore b hb)

/-- The checks settle to admission or to the refusal that comes first. -/
theorem checkEdge_exact (hcompat : g.Compatible) (e : Edge) :
    ∃ r, g.Settles (g.checkEdge e) r ∧ (r = .ok () ↔ g.Admits e) ∧
      ∀ reason, r = .error reason → g.Refusal e reason := by
  rcases checkShape_spec hv e with ⟨hjoins, -⟩ | ⟨hnot, reason, herror, hrefusal⟩
  · exact ⟨_, settles_checkEdge hv hcompat hjoins, fits_eq_ok_iff hv hcompat hjoins, fun reason =>
      refusal_of_fits_error hv hjoins⟩
  · refine ⟨.error reason, ?_, ?_, ?_⟩
    · simp only [checkEdge]
      rw [herror]
      exact (settles_liftM _).bind_error
    · constructor
      · intro h
        cases h
      · intro h
        exact absurd (h.joins hv) hnot
    · intro other h
      cases h
      exact hrefusal

end Verdict

end Graph
end TypedFlow
