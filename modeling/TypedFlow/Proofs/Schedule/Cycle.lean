import Mathlib.Data.List.Chain
import TypedFlow.Proofs.Effects
import TypedFlow.Proofs.Schedule.PostOrder
import TypedFlow.Schedule.Cycle

/-!
# The search for a cycle is exact

The search keeps the path to the current node and the nodes that it is done with. A node on the path
that is met again closes a cycle, and all of the path from that node on belongs to it. A node is done
with once all its successors are, so the nodes done with can be listed with the successors of each
behind it, and there is no cycle among them. A path has no node twice, and so a search may open one
level more than there are nodes and never come to an end of them.
-/
namespace TypedFlow.Adjacency
open Relation (ReflTransGen TransGen)
variable {α : Type} {g : Adjacency α}

/-- The places along a directed cycle, in the order of links. -/
structure IsCycle (g : Adjacency α) (cycle : List Nat) : Prop where
  ne_nil : cycle ≠ []
  nodup : cycle.Nodup
  chain : cycle.IsChain (StepsTo g.successors)
  closes : ∀ first ∈ cycle.head?, ∀ last ∈ cycle.getLast?, first ∈ g.successors last

theorem IsCycle.not_acyclic {cycle : List Nat} (h : g.IsCycle cycle) : ¬ g.Acyclic := by
  obtain ⟨first, rest, rfl⟩ := List.exists_cons_of_ne_nil h.ne_nil
  have hlast := List.getLast?_eq_some_getLast (List.cons_ne_nil first rest)
  have hreach : ReflTransGen (StepsTo g.successors) first
      ((first :: rest).getLast (List.cons_ne_nil first rest)) :=
    List.relationReflTransGen_of_exists_isChain_cons rest h.chain rfl
  exact fun ha => ha first (.tail' hreach (h.closes first rfl _ hlast))

section Paths

/-- A node is at the end of a path from some start, the rest of which is given latest node first and
has no node twice. -/
structure Approach (g : Adjacency α) (path : List Nat) (node : Nat) : Prop where
  nodup : path.Nodup
  lt : ∀ i ∈ node :: path, i < g.size
  chain : (node :: path).reverse.IsChain (StepsTo g.successors)

theorem approach_start {node : Nat} (hn : node < g.size) : g.Approach [] node where
  nodup := List.nodup_nil
  lt _ hi := List.mem_singleton.1 hi ▸ hn
  chain := List.isChain_singleton node

theorem Approach.step (h : g.Indexed) {path : List Nat} {node next : Nat}
    (ha : g.Approach path node) (hnew : node ∉ path) (hstep : next ∈ g.successors node) :
    g.Approach (node :: path) next where
  nodup := List.nodup_cons.2 ⟨hnew, ha.nodup⟩
  lt := List.forall_mem_cons.2 ⟨h.successor_lt hstep, ha.lt⟩
  chain := by
    rw [List.reverse_cons, List.isChain_append]
    refine ⟨ha.chain, List.isChain_singleton next, fun last hlast other hother => ?_⟩
    obtain rfl : node = last := by simpa using hlast
    obtain rfl : next = other := by simpa using hother
    exact hstep

theorem cycleFrom_append {first : Nat} {before after : List Nat} (h : first ∉ before) :
    cycleFrom first (before ++ first :: after) = first :: before.reverse := by
  induction before with
  | nil => simp [cycleFrom]
  | cons node before ih =>
    obtain ⟨hne, hbefore⟩ := List.ne_and_not_mem_of_not_mem_cons h
    rw [List.cons_append, cycleFrom, if_neg hne.symm, ih hbefore, List.reverse_cons,
      List.cons_append]

theorem Approach.isCycle {path : List Nat} {node : Nat} (ha : g.Approach path node)
    (hmem : node ∈ path) : g.IsCycle (cycleFrom node path) := by
  obtain ⟨before, after, rfl, hnot⟩ := List.eq_append_cons_of_mem hmem
  -- what the path has done since it was at the node, with the step back to it
  have hround : ((node :: before.reverse) ++ [node]).IsChain (StepsTo g.successors) := by
    refine ha.chain.suffix ⟨after.reverse, ?_⟩
    simp
  obtain ⟨hchain, -, hback⟩ := List.isChain_append.1 hround
  rw [cycleFrom_append hnot]
  refine ⟨List.cons_ne_nil _ _, ?_, hchain, fun first hfirst last hlast => ?_⟩
  · refine List.nodup_cons.2 ⟨by simpa using hnot, List.nodup_reverse.2 ?_⟩
    exact ha.nodup.sublist (List.sublist_append_left before _)
  · obtain rfl : node = first := by simpa using hfirst
    exact hback last hlast node rfl

end Paths

section Done
variable {next : Nat → List Nat} {done : List Nat}

theorem Grounded.mem_of_reaches (h : Grounded next done) {i j : Nat} (hi : i ∈ done)
    (hij : ReflTransGen (StepsTo next) i j) : j ∈ done := by
  induction hij with
  | refl => exact hi
  | tail _ hstep ih =>
    obtain ⟨later, earlier, heq⟩ := List.append_of_mem ih
    rw [heq]
    exact List.mem_append_right later (List.mem_cons_of_mem _ (h.mem heq hstep))

theorem Grounded.not_transGen (h : Grounded next done) {i : Nat} (hi : i ∈ done) :
    ¬ TransGen (StepsTo next) i i := by
  induction done with
  | nil => cases hi
  | cons node earlier ih =>
    obtain ⟨hnext, hearlier⟩ := h
    rcases List.mem_cons.1 hi with rfl | hi
    · -- one step leads among the earlier nodes, from where there is no way back
      intro hc
      obtain ⟨j, hij, hji⟩ := TransGen.head'_iff.1 hc
      exact ih hearlier (hearlier.mem_of_reaches (hnext j hij) hji) hc
    · exact ih hearlier hi

/-- From one list of nodes done with to another that has some further nodes. -/
structure Finishes (g : Adjacency α) (nodes done done' : List Nat) : Prop where
  kept : done ⊆ done'
  finished : nodes ⊆ done'
  grounded : Grounded g.successors done → Grounded g.successors done'

theorem finishes_nil : g.Finishes [] done done := ⟨List.Subset.refl _, List.nil_subset _, id⟩

theorem Finishes.cons {node : Nat} {nodes done' done'' : List Nat}
    (h : g.Finishes [node] done done') (h' : g.Finishes nodes done' done'') :
    g.Finishes (node :: nodes) done done'' where
  kept := List.Subset.trans h.kept h'.kept
  finished := List.cons_subset.2 ⟨h'.kept (h.finished List.mem_cons_self), h'.finished⟩
  grounded := h'.grounded ∘ h.grounded

theorem finishes_foldlM {visit : List Nat → Nat → Except (List Nat) (List Nat)} {nodes : List Nat}
    (hv : ∀ node ∈ nodes, ∀ done done', visit done node = .ok done' → g.Finishes [node] done done')
    {done' : List Nat} (h : nodes.foldlM visit done = .ok done') : g.Finishes nodes done done' := by
  induction nodes generalizing done with
  | nil =>
    cases h
    exact finishes_nil
  | cons node nodes ih =>
    rw [List.foldlM_cons] at h
    obtain ⟨done₁, hnode, hrest⟩ := of_bind_eq_ok h
    exact (hv node List.mem_cons_self done done₁ hnode).cons
      (ih (fun other ho => hv other (List.mem_cons_of_mem node ho)) hrest)

end Done

section Explore
variable (h : g.Indexed) {depth : Nat} {path done : List Nat} {node : Nat}
include h

theorem explore_eq_error {cycle : List Nat} (ha : g.Approach path node)
    (he : g.explore depth path done node = .error cycle) : g.IsCycle cycle := by
  induction depth generalizing path done node with
  | zero => cases he
  | succ depth ih =>
    unfold explore at he
    split at he
    · cases he
    · split at he
      · rename_i hmem
        cases he
        exact ha.isCycle (List.contains_iff_mem.1 hmem)
      · rename_i hnew
        have hnew : node ∉ path := by simpa using hnew
        rcases of_bind_eq_error he with hfold | ⟨_, -, hreturn⟩
        · obtain ⟨_, next, hnext, hvisit⟩ := exists_of_foldlM_eq_error hfold
          exact ih (ha.step h hnew hnext) hvisit
        · cases hreturn

theorem explore_eq_ok {done' : List Nat} (ha : g.Approach path node)
    (hd : g.size < depth + path.length) (he : g.explore depth path done node = .ok done') :
    g.Finishes [node] done done' := by
  induction depth generalizing path done node done' with
  | zero =>
    have hlength := length_le_of_nodup_lt ha.nodup fun i hi => ha.lt i (List.mem_cons_of_mem node hi)
    omega
  | succ depth ih =>
    unfold explore at he
    split at he
    · rename_i hmem
      cases he
      exact ⟨List.Subset.refl _, by simpa using hmem, id⟩
    · split at he
      · cases he
      · rename_i hnew
        have hnew : node ∉ path := by simpa using hnew
        obtain ⟨done₁, hfold, hreturn⟩ := of_bind_eq_ok he
        cases hreturn
        have hfinishes : g.Finishes (g.successors node) done done₁ :=
          finishes_foldlM (fun next hnext _ _ hvisit => ih (ha.step h hnew hnext)
            (by rw [List.length_cons]; omega) hvisit) hfold
        exact ⟨List.subset_cons_of_subset node hfinishes.kept, by simp,
          fun hgrounded => ⟨hfinishes.finished, hfinishes.grounded hgrounded⟩⟩

theorem isCycle_of_findCycle? {cycle : List Nat} (hc : g.findCycle? = some cycle) :
    g.IsCycle cycle := by
  unfold findCycle? at hc
  split at hc
  · cases hc
  · rename_i found herror
    cases hc
    obtain ⟨_, start, hstart, hexplore⟩ := exists_of_foldlM_eq_error herror
    exact explore_eq_error h (approach_start (List.mem_range.1 hstart)) hexplore

theorem acyclic_of_findCycle? (hc : g.findCycle? = none) : g.Acyclic := by
  unfold findCycle? at hc
  split at hc
  · rename_i done hok
    have hfinishes : g.Finishes (List.range g.size) [] done :=
      finishes_foldlM (fun start hstart _ _ hexplore =>
        explore_eq_ok h (approach_start (List.mem_range.1 hstart)) (by simp) hexplore) hok
    intro i hi
    obtain ⟨j, hij, -⟩ := TransGen.head'_iff.1 hi
    have hlt := h.predecessor_lt (h.mirror.1 hij)
    exact (hfinishes.grounded trivial).not_transGen (hfinishes.finished (List.mem_range.2 hlt)) hi
  · cases hc

theorem findCycle?_eq_none_iff : g.findCycle? = none ↔ g.Acyclic := by
  refine ⟨acyclic_of_findCycle? h, fun ha => ?_⟩
  cases hfound : g.findCycle? with
  | none => rfl
  | some cycle => exact absurd ha (isCycle_of_findCycle? h hfound).not_acyclic

end Explore

section Search
variable [DecidableEq α]

/-- Whatever the edges are, the search finds nothing exactly if there is no cycle, and what it finds
is one. -/
theorem cycle_search_is_exact {g : Adjacency α} {ids : List α} {edges : List (α × α)}
    (hg : g = ofEdges ids edges) :
    (g.findCycle? = none ↔ g.Acyclic) ∧ ∀ cycle, g.findCycle? = some cycle → g.IsCycle cycle := by
  have h : g.Indexed := hg ▸ indexed_ofEdges ids edges
  exact ⟨findCycle?_eq_none_iff h, fun _ => isCycle_of_findCycle? h⟩

/-- A way leads into the cycle and another out of it. -/
def roundabout : Adjacency String :=
  ofEdges ["in", "a", "b", "c", "out"] [("in", "b"), ("a", "b"), ("b", "out"), ("b", "c"), ("c", "a")]

theorem roundabout_has_cycle : roundabout.findCycle? = some [2, 3, 1] ∧
    roundabout.IsCycle [2, 3, 1] ∧ ¬ roundabout.Acyclic := by
  have hfound : roundabout.findCycle? = some [2, 3, 1] := by decide +kernel
  obtain ⟨hnone, hsome⟩ := cycle_search_is_exact (g := roundabout) rfl
  refine ⟨hfound, hsome [2, 3, 1] hfound, fun ha => ?_⟩
  cases hfound.symm.trans (hnone.2 ha)

end Search
end TypedFlow.Adjacency
