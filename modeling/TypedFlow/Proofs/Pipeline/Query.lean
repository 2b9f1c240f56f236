import TypedFlow.Proofs.Effects
import TypedFlow.Proofs.Pipeline.Typing

/-!
# Queries do not see the cache

A query settles to an answer when every coherent cache leads to this answer and stays coherent.
Settled parts make up settled wholes, and the lookups of types are settled on valid graphs, so the
cache is invisible to whatever is built from them. What a query answers on an empty cache is then
what it answers at all.
-/
namespace TypedFlow

namespace Query
variable {α β : Type}

def answer (q : Query α) (cache : TypeCache) : Except GraphError α := (q.run.run cache).1

/-- The cache that a query leaves. -/
def after (q : Query α) (cache : TypeCache) : TypeCache := (q.run.run cache).2

/-- The answer with nothing typed before. -/
def fresh (q : Query α) : Except GraphError α := q.answer []

/-- A query that succeeds has succeeded in its first part. -/
theorem answer_bind_ok {q : Query α} {f : α → Query β} {cache : TypeCache} {b : β}
    (h : (q >>= f).answer cache = .ok b) :
    ∃ a, q.answer cache = .ok a ∧ (f a).answer (q.after cache) = .ok b := by
  cases hq : q.answer cache with
  | error e =>
    simp only [answer] at h
    rw [run_bind_error hq] at h
    cases h
  | ok a =>
    simp only [answer] at h
    rw [run_bind_ok hq] at h
    exact ⟨a, rfl, h⟩

end Query

namespace Graph
variable {α β : Type} {g : Graph}

/-- A query answers the same whichever coherent cache it starts from, and leaves one. -/
def Settles (g : Graph) (q : Query α) (r : Except GraphError α) : Prop :=
  ∀ cache, g.Coherent cache → q.answer cache = r ∧ g.Coherent (q.after cache)

theorem Settles.fresh_eq {q : Query α} {r : Except GraphError α} (h : g.Settles q r) :
    q.fresh = r :=
  (h [] coherent_nil).1

theorem settles_pure (a : α) : g.Settles (pure a) (.ok a) := fun _ hc => ⟨rfl, hc⟩

theorem settles_throw (e : GraphError) : g.Settles (throw e : Query α) (.error e) :=
  fun _ hc => ⟨rfl, hc⟩

theorem settles_liftM (r : Except GraphError α) : g.Settles (liftM r) r := by
  cases r with
  | ok a => exact fun _ hc => ⟨rfl, hc⟩
  | error e => exact fun _ hc => ⟨rfl, hc⟩

theorem Settles.bind_ok {q : Query α} {f : α → Query β} {a : α} {r : Except GraphError β}
    (hq : g.Settles q (.ok a)) (hf : g.Settles (f a) r) : g.Settles (q >>= f) r := by
  intro cache hc
  obtain ⟨hanswer, hafter⟩ := hq cache hc
  have hrun := @run_bind_ok _ _ _ _ _ _ f _ hanswer
  simp only [Query.answer, Query.after]
  rw [hrun]
  exact hf _ hafter

theorem Settles.bind_error {q : Query α} {f : α → Query β} {e : GraphError}
    (hq : g.Settles q (.error e)) : g.Settles (q >>= f) (.error e) := by
  intro cache hc
  obtain ⟨hanswer, hafter⟩ := hq cache hc
  have hrun := @run_bind_error _ _ _ _ _ _ f _ hanswer
  simp only [Query.answer, Query.after]
  rw [hrun]
  exact ⟨rfl, hafter⟩

theorem Settles.bind {q : Query α} {f : α → Query β} {r : Except GraphError α}
    {next : α → Except GraphError β} (hq : g.Settles q r)
    (hf : ∀ a, r = .ok a → g.Settles (f a) (next a)) : g.Settles (q >>= f) (r >>= next) := by
  cases r with
  | ok a => exact hq.bind_ok (hf a rfl)
  | error e => exact hq.bind_error

theorem settles_mapM {f : α → Query β} {next : α → Except GraphError β} {items : List α}
    (h : ∀ a ∈ items, g.Settles (f a) (next a)) : g.Settles (items.mapM f) (items.mapM next) := by
  induction items with
  | nil => exact settles_pure []
  | cons a items ih =>
    rw [List.mapM_cons, List.mapM_cons]
    exact (h a List.mem_cons_self).bind fun b _ =>
      (ih fun c hc => h c (List.mem_cons_of_mem a hc)).bind fun bs _ => settles_pure (b :: bs)

theorem settles_mapM_ok {f : α → Query β} {value : α → β} {items : List α}
    (h : ∀ a ∈ items, g.Settles (f a) (.ok (value a))) :
    g.Settles (items.mapM f) (.ok (items.map value)) := by
  have hm := settles_mapM h
  rwa [mapM_eq_ok fun _ _ => rfl] at hm

theorem settles_forM {f : α → Query PUnit} {next : α → Except GraphError PUnit} {items : List α}
    (h : ∀ a ∈ items, g.Settles (f a) (next a)) : g.Settles (items.forM f) (items.forM next) := by
  induction items with
  | nil => exact settles_pure _
  | cons a items ih =>
    exact (h a List.mem_cons_self).bind fun _ _ => ih fun c hc => h c (List.mem_cons_of_mem a hc)

/-- Which answer it is does not matter for being settled. -/
def Steady (g : Graph) (q : Query α) : Prop := ∃ r, g.Settles q r

theorem Steady.bind {q : Query α} {f : α → Query β} (hq : g.Steady q)
    (hf : ∀ a, g.Steady (f a)) : g.Steady (q >>= f) := by
  obtain ⟨r, hr⟩ := hq
  choose next hnext using hf
  exact ⟨_, hr.bind fun a _ => hnext a⟩

theorem steady_pure (a : α) : g.Steady (pure a : Query α) := ⟨_, settles_pure a⟩

theorem steady_throw (e : GraphError) : g.Steady (throw e : Query α) := ⟨_, settles_throw e⟩

theorem steady_liftM (r : Except GraphError α) : g.Steady (liftM r : Query α) :=
  ⟨_, settles_liftM r⟩

theorem steady_mapM {f : α → Query β} (items : List α) (h : ∀ a, g.Steady (f a)) :
    g.Steady (items.mapM f) := by
  choose next hnext using h
  exact ⟨_, settles_mapM fun a _ => hnext a⟩

theorem steady_forM {f : α → Query PUnit} (items : List α) (h : ∀ a, g.Steady (f a)) :
    g.Steady (items.forM f) := by
  choose next hnext using h
  exact ⟨_, settles_forM fun a _ => hnext a⟩

theorem steady_foldlM {f : β → α → Query β} (items : List α) (init : β)
    (h : ∀ b a, g.Steady (f b a)) : g.Steady (items.foldlM f init) := by
  induction items generalizing init with
  | nil => exact steady_pure init
  | cons a items ih =>
    rw [List.foldlM_cons]
    exact (h init a).bind ih

theorem steady_tryCatch {q : Query α} {handler : GraphError → Query α} (hq : g.Steady q)
    (hh : ∀ e, g.Steady (handler e)) : g.Steady (tryCatch q handler) := by
  obtain ⟨r, hr⟩ := hq
  cases r with
  | ok a =>
    refine ⟨.ok a, fun cache hc => ?_⟩
    obtain ⟨hanswer, hafter⟩ := hr cache hc
    have hrun := @run_tryCatch_ok _ _ _ _ _ handler _ hanswer
    simp only [Query.answer, Query.after]
    rw [hrun]
    exact ⟨hanswer, hafter⟩
  | error e =>
    obtain ⟨r', hr'⟩ := hh e
    refine ⟨r', fun cache hc => ?_⟩
    obtain ⟨hanswer, hafter⟩ := hr cache hc
    have hrun := @run_tryCatch_error _ _ _ _ _ handler _ hanswer
    simp only [Query.answer, Query.after]
    rw [hrun]
    exact hr' _ hafter

theorem run_modify_bind {α : Type} (f : TypeCache → TypeCache) (k : PUnit → Query α)
    (cache : TypeCache) :
    (modify f >>= k : Query α).run.run cache = (k ⟨⟩).run.run (f cache) := rfl

theorem run_get_bind {α : Type} (k : TypeCache → Query α) (cache : TypeCache) :
    (get >>= k : Query α).run.run cache = (k cache).run.run cache := rfl

theorem nodeTypes_run (id : NodeId) (cache : TypeCache) :
    (g.nodeTypes id).run.run cache =
      (((g.withNode cache id).get? id).elim (.error (.nodeNotFound id)) .ok,
        g.withNode cache id) := by
  simp only [nodeTypes]
  rw [run_modify_bind, run_get_bind]
  cases (g.withNode cache id).get? id with
  | none => rfl
  | some types => rfl

section Lookup
variable (hv : g.Valid)
include hv

theorem settles_nodeTypes {id : NodeId} {types : NodeTypes} (h : g.Typed id types) :
    g.Settles (g.nodeTypes id) (.ok types) := by
  intro cache hc
  obtain ⟨hc', hget⟩ := withNode_spec hv hc id
  obtain ⟨node, hnode⟩ := h.exists_node
  obtain ⟨found, hfound⟩ := Option.isSome_iff_exists.1 (hget (isSome_of_node? hnode))
  obtain rfl := h.unique (hc' id found hfound)
  simp only [Query.answer, Query.after]
  rw [nodeTypes_run, hfound]
  exact ⟨rfl, hc'⟩

theorem settles_nodeTypes_missing {id : NodeId} (h : g.node? id = none) :
    g.Settles (g.nodeTypes id) (.error (.nodeNotFound id)) := by
  intro cache hc
  obtain ⟨hc', -⟩ := withNode_spec hv hc id
  have hnone : (g.withNode cache id).get? id = none := by
    by_contra hsome
    obtain ⟨types, htypes⟩ := Option.ne_none_iff_exists'.1 hsome
    obtain ⟨node, hnode⟩ := (hc' id types htypes).exists_node
    rw [h] at hnode
    cases hnode
  simp only [Query.answer, Query.after]
  rw [nodeTypes_run, hnone]
  exact ⟨rfl, hc'⟩

theorem steady_nodeTypes (id : NodeId) : g.Steady (g.nodeTypes id) := by
  cases hnode : g.node? id with
  | none => exact ⟨_, settles_nodeTypes_missing hv hnode⟩
  | some node =>
    obtain ⟨types, htypes⟩ := exists_typed hv (isSome_of_node? hnode)
    exact ⟨_, settles_nodeTypes hv htypes⟩

theorem steady_outputType (id : NodeId) (socket : Nat) : g.Steady (g.outputType id socket) := by
  refine (steady_nodeTypes hv id).bind fun types => ?_
  cases types.outputs[socket]? with
  | none => exact steady_throw _
  | some t => exact steady_pure t

theorem steady_inputType (id : NodeId) (socket : Nat) : g.Steady (g.inputType id socket) := by
  refine (steady_nodeTypes hv id).bind fun types => ?_
  cases types.inputs[socket]? with
  | none => exact steady_throw _
  | some t => exact steady_pure t

theorem steady_declaredInputType (id : NodeId) (socket : Nat) :
    g.Steady (g.declaredInputType id socket) := by
  refine (steady_nodeTypes hv id).bind fun types => ?_
  cases types.declaredInputs[socket]? with
  | none => exact steady_throw _
  | some t => exact steady_pure t

theorem settles_outputType {id : NodeId} {types : NodeTypes} (h : g.Typed id types) {socket : Nat}
    {t : Ty} (ht : types.outputs[socket]? = some t) :
    g.Settles (g.outputType id socket) (.ok t) := by
  refine (settles_nodeTypes hv h).bind_ok ?_
  rw [ht]
  exact settles_pure t

theorem settles_inputType {id : NodeId} {types : NodeTypes} (h : g.Typed id types) {socket : Nat}
    {t : Ty} (ht : types.inputs[socket]? = some t) : g.Settles (g.inputType id socket) (.ok t) := by
  refine (settles_nodeTypes hv h).bind_ok ?_
  rw [ht]
  exact settles_pure t

theorem settles_declaredInputType {id : NodeId} {types : NodeTypes} (h : g.Typed id types)
    {socket : Nat} {t : Ty} (ht : types.declaredInputs[socket]? = some t) :
    g.Settles (g.declaredInputType id socket) (.ok t) := by
  refine (settles_nodeTypes hv h).bind_ok ?_
  rw [ht]
  exact settles_pure t

end Lookup

end Graph
end TypedFlow
