import Mathlib.Data.List.Induction
import Mathlib.Order.Basic
import TypedFlow.Proofs.Schedule.Adjacency

/-!
# An index edge by edge

Edges are taken into an index one after the other. A new link goes to the end of two lists at once,
to the successors of its source and to the predecessors of its target, and a link that is there
already changes nothing. So both kinds of lists are in the order of the edges that join a pair of
places first.
-/
namespace TypedFlow.Adjacency
variable {α : Type} [DecidableEq α]

/-- The place in a list of edges of the first that leads from `i` to `j`. -/
def firstEdge (ids : List α) (edges : List (α × α)) (i j : Nat) : Nat :=
  edges.findIdx fun edge => link? ids edge == some (i, j)

variable {ids : List α} {edges : List (α × α)} {edge : α × α} {s t i j : Nat}

section Concat

theorem links_concat : links ids (edges ++ [edge]) =
    match link? ids edge with
    | some l => if l ∈ links ids edges then links ids edges else links ids edges ++ [l]
    | none => links ids edges := by
  simp only [links]
  rw [List.filterMap_append, List.foldl_append]
  cases h : link? ids edge <;> simp [h]

theorem mem_links_iff_mem_successors :
    (i, j) ∈ links ids edges ↔ j ∈ (ofEdges ids edges).successors i :=
  mem_links.trans mem_successors_iff.symm

/-- An edge between unknown nodes, or one that is parallel to another, is not seen. -/
theorem ofEdges_concat_of_known (h : ∀ s t, link? ids edge = some (s, t) →
    t ∈ (ofEdges ids edges).successors s) :
    ofEdges ids (edges ++ [edge]) = ofEdges ids edges := by
  have hlinks : links ids (edges ++ [edge]) = links ids edges := by
    rw [links_concat]
    cases hl : link? ids edge with
    | none => rfl
    | some l => exact if_pos (mem_links_iff_mem_successors.2 (h _ _ hl))
  simp only [ofEdges]
  rw [hlinks]

section New
variable (h : link? ids edge = some (s, t)) (hnew : t ∉ (ofEdges ids edges).successors s)
include h hnew

theorem links_concat_of_new : links ids (edges ++ [edge]) = links ids edges ++ [(s, t)] := by
  rw [links_concat, h]
  exact if_neg fun hmem => hnew (mem_links_iff_mem_successors.1 hmem)

theorem successors_concat_of_new (i : Nat) : (ofEdges ids (edges ++ [edge])).successors i =
    (ofEdges ids edges).successors i ++ if i = s then [t] else [] := by
  have hs := lastIndex?_lt (link?_eq_some_iff.1 h).1
  rcases Nat.lt_or_ge i ids.length with hi | hi
  · rw [successors_ofEdges _ _ hi, successors_ofEdges _ _ hi, links_concat_of_new h hnew,
      List.filter_append, List.map_append]
    by_cases his : i = s
    · simp [his]
    · simp [his, Ne.symm his]
  · rw [successors_of_ge _ _ hi, successors_of_ge _ _ hi, if_neg (by omega), List.append_nil]

theorem predecessors_concat_of_new (j : Nat) : (ofEdges ids (edges ++ [edge])).predecessors j =
    (ofEdges ids edges).predecessors j ++ if j = t then [s] else [] := by
  have ht := lastIndex?_lt (link?_eq_some_iff.1 h).2
  rcases Nat.lt_or_ge j ids.length with hj | hj
  · rw [predecessors_ofEdges _ _ hj, predecessors_ofEdges _ _ hj, links_concat_of_new h hnew,
      List.filter_append, List.map_append]
    by_cases hjt : j = t
    · simp [hjt]
    · simp [hjt, Ne.symm hjt]
  · rw [predecessors_of_ge _ _ hj, predecessors_of_ge _ _ hj, if_neg (by omega), List.append_nil]

end New

end Concat

section Order

theorem firstEdge_lt_iff :
    firstEdge ids edges i j < edges.length ↔ j ∈ (ofEdges ids edges).successors i := by
  rw [firstEdge, List.findIdx_lt_length, mem_successors_iff]
  simp

theorem firstEdge_append (h : j ∈ (ofEdges ids edges).successors i) (later : List (α × α)) :
    firstEdge ids (edges ++ later) i j = firstEdge ids edges i j := by
  have hlt := firstEdge_lt_iff.2 h
  simp only [firstEdge] at hlt ⊢
  rw [List.findIdx_append, if_pos hlt]

/-- A link that is new comes after those that were found before. -/
theorem firstEdge_lt_of_new (h : j ∈ (ofEdges ids edges).successors i)
    (hnew : t ∉ (ofEdges ids edges).successors s) :
    firstEdge ids (edges ++ [edge]) i j < firstEdge ids (edges ++ [edge]) s t := by
  have hlt := firstEdge_lt_iff.2 h
  have hge : ¬ firstEdge ids edges s t < edges.length := fun hlt => hnew (firstEdge_lt_iff.1 hlt)
  rw [firstEdge_append h]
  refine Nat.lt_of_lt_of_le hlt ?_
  simp only [firstEdge] at hge ⊢
  rw [List.findIdx_append, if_neg hge]
  exact Nat.le_add_left _ _

/-- The lists of an index are in the order of first edges. -/
structure Ordered (g : Adjacency α) (edges : List (α × α)) : Prop where
  successors : ∀ i, (g.successors i).Pairwise fun j k =>
    firstEdge g.ids edges i j < firstEdge g.ids edges i k
  predecessors : ∀ j, (g.predecessors j).Pairwise fun i k =>
    firstEdge g.ids edges i j < firstEdge g.ids edges k j

theorem Ordered.append (h : (ofEdges ids edges).Ordered edges) (later : List (α × α)) :
    (ofEdges ids edges).Ordered (edges ++ later) where
  successors i := by
    refine (h.successors i).imp_of_mem fun hj hk hlt => ?_
    exact (firstEdge_append hj later).trans_lt (hlt.trans_eq (firstEdge_append hk later).symm)
  predecessors j := by
    have hindexed := indexed_ofEdges ids edges
    refine (h.predecessors j).imp_of_mem fun hi hk hlt => ?_
    exact (firstEdge_append (hindexed.mirror.2 hi) later).trans_lt
      (hlt.trans_eq (firstEdge_append (hindexed.mirror.2 hk) later).symm)

theorem Ordered.concat_of_new (h : (ofEdges ids edges).Ordered edges)
    (hlink : link? ids edge = some (s, t)) (hnew : t ∉ (ofEdges ids edges).successors s) :
    (ofEdges ids (edges ++ [edge])).Ordered (edges ++ [edge]) where
  successors i := by
    rw [successors_concat_of_new hlink hnew, List.pairwise_append]
    refine ⟨(h.append [edge]).successors i, ?_, ?_⟩
    · split <;> simp
    · intro j hj k hk
      split at hk
      · obtain rfl := List.mem_singleton.1 hk
        subst i
        exact firstEdge_lt_of_new hj hnew
      · cases hk
  predecessors j := by
    rw [predecessors_concat_of_new hlink hnew, List.pairwise_append]
    refine ⟨(h.append [edge]).predecessors j, ?_, ?_⟩
    · split <;> simp
    · intro i hi k hk
      split at hk
      · obtain rfl := List.mem_singleton.1 hk
        subst j
        exact firstEdge_lt_of_new ((indexed_ofEdges ids edges).mirror.2 hi) hnew
      · cases hk

theorem Ordered.concat (h : (ofEdges ids edges).Ordered edges) (edge : α × α) :
    (ofEdges ids (edges ++ [edge])).Ordered (edges ++ [edge]) := by
  by_cases hknown : ∀ s t, link? ids edge = some (s, t) → t ∈ (ofEdges ids edges).successors s
  · rw [ofEdges_concat_of_known hknown]
    exact h.append [edge]
  · simp only [not_forall] at hknown
    obtain ⟨s, t, hlink, hnew⟩ := hknown
    exact h.concat_of_new hlink hnew

theorem ordered_ofEdges (ids : List α) (edges : List (α × α)) :
    (ofEdges ids edges).Ordered edges := by
  induction edges using List.reverseRecOn with
  | nil =>
    have hsuccessors : ∀ i, (ofEdges ids []).successors i = [] := fun i =>
      List.eq_nil_iff_forall_not_mem.2 fun j hj => by simp [mem_successors_iff] at hj
    have hpredecessors : ∀ j, (ofEdges ids []).predecessors j = [] := fun j =>
      List.eq_nil_iff_forall_not_mem.2 fun i hi => by simp [mem_predecessors_iff] at hi
    exact ⟨fun i => hsuccessors i ▸ List.Pairwise.nil, fun j => hpredecessors j ▸ List.Pairwise.nil⟩
  | append_singleton edges edge ih => exact ih.concat edge

end Order

/-- Edges that name an unknown node contribute nothing. -/
theorem ofEdges_filter_known (ids : List α) (edges : List (α × α)) :
    ofEdges ids (edges.filter fun edge => decide (edge.1 ∈ ids ∧ edge.2 ∈ ids)) =
      ofEdges ids edges := by
  have hlink : ∀ edge : α × α,
      (if decide (edge.1 ∈ ids ∧ edge.2 ∈ ids) = true then link? ids edge else none) =
        link? ids edge := by
    intro edge
    by_cases hknown : edge.1 ∈ ids ∧ edge.2 ∈ ids
    · simp [hknown]
    · rw [if_neg (by simpa using hknown)]
      cases h : link? ids edge with
      | none => rfl
      | some l =>
        obtain ⟨hs, ht⟩ := link?_eq_some_iff.1 h
        exact absurd ⟨List.mem_of_getElem? (getElem?_of_lastIndex? hs),
          List.mem_of_getElem? (getElem?_of_lastIndex? ht)⟩ hknown
  have hlinks : links ids (edges.filter fun edge => decide (edge.1 ∈ ids ∧ edge.2 ∈ ids)) =
      links ids edges := by
    simp only [links]
    rw [List.filterMap_filter, funext hlink]
  simp only [ofEdges]
  rw [hlinks]

theorem indexOf?_eq_some_iff {g : Adjacency α} (hn : g.ids.Nodup) {id : α} :
    g.indexOf? id = some i ↔ g.ids[i]? = some id :=
  ⟨getElem?_of_lastIndex?, lastIndex?_of_getElem? hn⟩

/-- Whatever is listed, the two tables of an index hold the links of the edges between listed nodes,
each once and in the order of the edges; places and nodes are inverse to each other when no node is
listed twice. -/
theorem index_is_consistent {g : Adjacency α} {ids : List α} {edges : List (α × α)}
    (hg : g = ofEdges ids edges) :
    (∀ s t, t ∈ g.successors s ↔
      ∃ edge ∈ edges, g.indexOf? edge.1 = some s ∧ g.indexOf? edge.2 = some t) ∧
    (∀ s t, s ∈ g.predecessors t ↔
      ∃ edge ∈ edges, g.indexOf? edge.1 = some s ∧ g.indexOf? edge.2 = some t) ∧
    g = ofEdges ids (edges.filter fun edge => decide (edge.1 ∈ ids ∧ edge.2 ∈ ids)) ∧
    (∀ i, (g.successors i).Nodup ∧ (g.predecessors i).Nodup) ∧
    g.Ordered edges ∧
    g.ids = ids ∧ (ids.Nodup → ∀ id i, g.indexOf? id = some i ↔ g.ids[i]? = some id) := by
  subst hg
  have h := indexed_ofEdges ids edges
  have hmem : ∀ s t, t ∈ (ofEdges ids edges).successors s ↔ ∃ edge ∈ edges,
      (ofEdges ids edges).indexOf? edge.1 = some s ∧ (ofEdges ids edges).indexOf? edge.2 = some t :=
    fun s t => mem_successors_iff.trans (by simp only [link?_eq_some_iff]; rfl)
  refine ⟨hmem, fun s t => h.mirror.symm.trans (hmem s t), (ofEdges_filter_known ids edges).symm,
    fun i => ⟨h.successors_nodup i, h.predecessors_nodup i⟩, ordered_ofEdges ids edges, rfl,
    fun hn id i => indexOf?_eq_some_iff hn⟩

/-- A loop, parallel edges and an edge to a node that is not listed. -/
def yardEdges : List (String × String) :=
  [("b", "c"), ("b", "a"), ("c", "a"), ("b", "c"), ("b", "x"), ("b", "b")]

def yard : Adjacency String := ofEdges ["a", "b", "c"] yardEdges

theorem yard_is_consistent : ["a", "b", "c"].Nodup ∧ yard.successors 1 = [2, 0, 1] ∧
    yard.predecessors 0 = [1, 2] ∧ yard.Ordered yardEdges ∧
    (2 ∈ yard.successors 1 ↔ ∃ edge ∈ yardEdges,
      yard.indexOf? edge.1 = some 1 ∧ yard.indexOf? edge.2 = some 2) ∧
    (yard.indexOf? "c" = some 2 ↔ yard.ids[2]? = some "c") := by
  have hnodup : ["a", "b", "c"].Nodup := by decide
  obtain ⟨hsuccessors, -, -, -, hordered, -, hinverse⟩ := index_is_consistent (g := yard) rfl
  exact ⟨hnodup, by decide +kernel, by decide +kernel, hordered, hsuccessors 1 2,
    hinverse hnodup "c" 2⟩

end TypedFlow.Adjacency
