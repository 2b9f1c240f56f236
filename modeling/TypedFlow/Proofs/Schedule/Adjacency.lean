import Mathlib.Data.List.Nodup
import TypedFlow.Schedule.Adjacency

/-!
# The index of a graph

Places of nodes and nodes at places are inverse to each other when no node is listed twice, and the
two tables of an index hold the same links. The searches rely on nothing else: `Indexed` says so
once for every index that is built from edges.
-/
namespace TypedFlow.Adjacency
variable {α : Type} [DecidableEq α]

theorem getElem?_of_lastIndex? {id : α} {ids : List α} {i : Nat}
    (h : lastIndex? id ids = some i) : ids[i]? = some id := by
  induction ids generalizing i with
  | nil => simp [lastIndex?] at h
  | cons other ids ih =>
    simp only [lastIndex?] at h
    cases hl : lastIndex? id ids with
    | some j =>
      simp only [hl, Option.some.injEq] at h
      subst h
      simpa using ih hl
    | none =>
      simp only [hl, Option.ite_none_right_eq_some, Option.some.injEq] at h
      obtain ⟨rfl, rfl⟩ := h
      rfl

theorem lastIndex?_lt {id : α} {ids : List α} {i : Nat} (h : lastIndex? id ids = some i) :
    i < ids.length :=
  (List.getElem?_eq_some_iff.1 (getElem?_of_lastIndex? h)).1

theorem lastIndex?_eq_none_iff {id : α} {ids : List α} : lastIndex? id ids = none ↔ id ∉ ids := by
  induction ids with
  | nil => simp [lastIndex?]
  | cons other ids ih =>
    simp only [lastIndex?]
    cases hl : lastIndex? id ids with
    | some j =>
      have hmem : id ∈ ids := List.mem_of_getElem? (getElem?_of_lastIndex? hl)
      simp [hmem]
    | none => simp [ih.1 hl, eq_comm]

theorem lastIndex?_of_getElem? {id : α} {ids : List α} {i : Nat} (hn : ids.Nodup)
    (h : ids[i]? = some id) : lastIndex? id ids = some i := by
  cases hl : lastIndex? id ids with
  | none => exact absurd (List.mem_of_getElem? h) (lastIndex?_eq_none_iff.1 hl)
  | some j =>
    have hj := getElem?_of_lastIndex? hl
    have hlt := lastIndex?_lt hl
    rw [← h] at hj
    exact congrArg some ((List.getElem?_inj hlt hn).1 hj)

theorem link?_eq_some_iff {ids : List α} {edge : α × α} {i j : Nat} :
    link? ids edge = some (i, j) ↔
      lastIndex? edge.1 ids = some i ∧ lastIndex? edge.2 ids = some j := by
  simp only [link?]
  cases lastIndex? edge.1 ids <;> cases lastIndex? edge.2 ids <;> simp

/-- Gathering without repetition: what is found stays, and the rest comes in once. -/
theorem dedup_spec (links found : List (Nat × Nat)) (hn : found.Nodup) :
    let all := links.foldl (fun found l => if found.contains l then found else found ++ [l]) found
    all.Nodup ∧ ∀ l, l ∈ all ↔ l ∈ found ∨ l ∈ links := by
  induction links generalizing found with
  | nil => simpa using hn
  | cons l links ih =>
    by_cases hl : l ∈ found
    · obtain ⟨hnodup, hmem⟩ := ih found hn
      rw [List.foldl_cons, if_pos (List.contains_iff_mem.2 hl)]
      refine ⟨hnodup, fun k => ?_⟩
      rw [hmem k, List.mem_cons]
      refine ⟨fun h => h.imp id .inr, fun h => ?_⟩
      rcases h with h | rfl | h
      · exact .inl h
      · exact .inl hl
      · exact .inr h
    · have hn' : (found ++ [l]).Nodup := by
        simp only [List.nodup_append, hn, List.nodup_singleton, true_and]
        rintro a ha b hb rfl
        exact hl (List.mem_singleton.1 hb ▸ ha)
      obtain ⟨hnodup, hmem⟩ := ih (found ++ [l]) hn'
      rw [List.foldl_cons, if_neg (by simpa using hl)]
      refine ⟨hnodup, fun k => ?_⟩
      rw [hmem k, List.mem_append, List.mem_singleton, List.mem_cons, or_assoc]

theorem nodup_links (ids : List α) (edges : List (α × α)) : (links ids edges).Nodup :=
  (dedup_spec _ [] List.nodup_nil).1

theorem mem_links {ids : List α} {edges : List (α × α)} {l : Nat × Nat} :
    l ∈ links ids edges ↔ ∃ edge ∈ edges, link? ids edge = some l := by
  simp only [links]
  rw [(dedup_spec _ [] List.nodup_nil).2 l]
  simp

theorem successors_ofEdges (ids : List α) (edges : List (α × α)) {i : Nat} (hi : i < ids.length) :
    (ofEdges ids edges).successors i = ((links ids edges).filter (·.1 == i)).map (·.2) := by
  simp [successors, ofEdges, hi]

theorem predecessors_ofEdges (ids : List α) (edges : List (α × α)) {i : Nat}
    (hi : i < ids.length) :
    (ofEdges ids edges).predecessors i = ((links ids edges).filter (·.2 == i)).map (·.1) := by
  simp [predecessors, ofEdges, hi]

theorem successors_of_ge (ids : List α) (edges : List (α × α)) {i : Nat} (hi : ids.length ≤ i) :
    (ofEdges ids edges).successors i = [] := by
  simp [successors, ofEdges, Nat.not_lt.2 hi]

theorem predecessors_of_ge (ids : List α) (edges : List (α × α)) {i : Nat} (hi : ids.length ≤ i) :
    (ofEdges ids edges).predecessors i = [] := by
  simp [predecessors, ofEdges, Nat.not_lt.2 hi]

theorem mem_successors_iff {ids : List α} {edges : List (α × α)} {i j : Nat} :
    j ∈ (ofEdges ids edges).successors i ↔ ∃ edge ∈ edges, link? ids edge = some (i, j) := by
  rcases Nat.lt_or_ge i ids.length with hi | hi
  · rw [successors_ofEdges ids edges hi, ← mem_links]
    simp
  · rw [successors_of_ge ids edges hi]
    refine ⟨fun h => absurd h List.not_mem_nil, ?_⟩
    intro hh
    obtain ⟨edge, -, hl⟩ := hh
    exact absurd (lastIndex?_lt (link?_eq_some_iff.1 hl).1) (Nat.not_lt.2 hi)

theorem mem_predecessors_iff {ids : List α} {edges : List (α × α)} {i j : Nat} :
    i ∈ (ofEdges ids edges).predecessors j ↔ ∃ edge ∈ edges, link? ids edge = some (i, j) := by
  rcases Nat.lt_or_ge j ids.length with hj | hj
  · rw [predecessors_ofEdges ids edges hj, ← mem_links]
    simp
  · rw [predecessors_of_ge ids edges hj]
    refine ⟨fun h => absurd h List.not_mem_nil, ?_⟩
    intro hh
    obtain ⟨edge, -, hl⟩ := hh
    exact absurd (lastIndex?_lt (link?_eq_some_iff.1 hl).2) (Nat.not_lt.2 hj)

theorem nodup_successors (ids : List α) (edges : List (α × α)) (i : Nat) :
    ((ofEdges ids edges).successors i).Nodup := by
  rcases Nat.lt_or_ge i ids.length with hi | hi
  · rw [successors_ofEdges ids edges hi]
    refine List.Nodup.map_on ?_ ((nodup_links ids edges).filter _)
    rintro ⟨a, b⟩ ha ⟨c, d⟩ hc rfl
    simp only [List.mem_filter, beq_iff_eq] at ha hc
    rw [ha.2, hc.2]
  · rw [successors_of_ge ids edges hi]
    exact List.nodup_nil

theorem nodup_predecessors (ids : List α) (edges : List (α × α)) (i : Nat) :
    ((ofEdges ids edges).predecessors i).Nodup := by
  rcases Nat.lt_or_ge i ids.length with hi | hi
  · rw [predecessors_ofEdges ids edges hi]
    refine List.Nodup.map_on ?_ ((nodup_links ids edges).filter _)
    rintro ⟨a, b⟩ ha ⟨c, d⟩ hc rfl
    simp only [List.mem_filter, beq_iff_eq] at ha hc
    rw [ha.2, hc.2]
  · rw [predecessors_of_ge ids edges hi]
    exact List.nodup_nil

/-- What the searches need of an index: links stay within the places, are listed once, and are the
same in both tables. -/
structure Indexed (g : Adjacency α) : Prop where
  successor_lt : ∀ {i j}, j ∈ g.successors i → j < g.size
  predecessor_lt : ∀ {i j}, i ∈ g.predecessors j → i < g.size
  mirror : ∀ {i j}, j ∈ g.successors i ↔ i ∈ g.predecessors j
  successors_nodup : ∀ i, (g.successors i).Nodup
  predecessors_nodup : ∀ i, (g.predecessors i).Nodup

theorem indexed_ofEdges (ids : List α) (edges : List (α × α)) : (ofEdges ids edges).Indexed where
  successor_lt h := by
    obtain ⟨edge, -, hl⟩ := mem_successors_iff.1 h
    exact lastIndex?_lt (link?_eq_some_iff.1 hl).2
  predecessor_lt h := by
    obtain ⟨edge, -, hl⟩ := mem_predecessors_iff.1 h
    exact lastIndex?_lt (link?_eq_some_iff.1 hl).1
  mirror := mem_successors_iff.trans mem_predecessors_iff.symm
  successors_nodup := nodup_successors ids edges
  predecessors_nodup := nodup_predecessors ids edges

omit [DecidableEq α] in
theorem mem_idsAt {g : Adjacency α} {places : List Nat} {id : α} :
    id ∈ g.idsAt places ↔ ∃ i ∈ places, g.ids[i]? = some id := by
  simp [idsAt]

omit [DecidableEq α] in
/-- At different places of an index without repetition stand different nodes. -/
theorem nodup_idsAt {g : Adjacency α} (hn : g.ids.Nodup) {places : List Nat} (hp : places.Nodup) :
    (g.idsAt places).Nodup := by
  refine hp.filterMap ?_
  intro i j id hi hj
  have hi' : g.ids[i]? = some id := hi
  have hj' : g.ids[j]? = some id := hj
  exact (List.getElem?_inj (List.getElem?_eq_some_iff.1 hi').1 hn).1 (hi'.trans hj'.symm)

end TypedFlow.Adjacency
