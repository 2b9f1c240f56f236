import Mathlib.Data.List.Perm.Subperm
import Mathlib.Logic.Relation
import TypedFlow.Proofs.Schedule.Adjacency
import TypedFlow.Schedule.Reachable

/-!
# Reachability is exact

A search keeps three lists apart: the places yielded, those that wait on the stack, and the marks,
which are the two together. Links of a yielded place are marked, so when the stack is empty the
yielded places are closed under links. A round yields one place, so as many rounds as there are
places suffice, and further rounds yield nothing. As both tables hold the same links, the searches
in the two directions are converse to each other.
-/
namespace TypedFlow.Adjacency
open Relation (ReflTransGen)
variable {α : Type}

/-- One step along a table of links. -/
def StepsTo (next : Nat → List Nat) (i j : Nat) : Prop := j ∈ next i

/-- A list without repetition of numbers below a bound is no longer than the bound. -/
theorem length_le_of_nodup_lt {places : List Nat} {n : Nat} (hn : places.Nodup)
    (hlt : ∀ i ∈ places, i < n) : places.length ≤ n := by
  have hsub : places.Subperm (List.range n) :=
    List.subperm_of_subset hn fun i hi => List.mem_range.2 (hlt i hi)
  simpa using hsub.length_le

section Search
variable {next : Nat → List Nat} {n : Nat}

/-- The marks of a search are what has been yielded and what waits; links of what has been yielded
are marked. -/
structure Searching (next : Nat → List Nat) (n : Nat) (yielded stack seen : List Nat) : Prop where
  marks : (yielded ++ stack).Perm seen
  nodup : seen.Nodup
  lt : ∀ i ∈ seen, i < n
  closed : ∀ i ∈ yielded, ∀ j ∈ next i, j ∈ seen

theorem Searching.step (hnodup : ∀ i, (next i).Nodup) (hlt : ∀ {i j}, j ∈ next i → j < n)
    {yielded stack seen : List Nat} {node : Nat}
    (h : Searching next n yielded (node :: stack) seen) :
    Searching next n (yielded ++ [node]) ((next node).filter (fun i => !seen.contains i) ++ stack)
      ((next node).filter (fun i => !seen.contains i) ++ seen) := by
  refine ⟨?_, ?_, ?_, ?_⟩
  · have hp : (yielded ++ [node] ++ stack).Perm seen := by
      simpa using h.marks
    refine List.Perm.trans ?_ (hp.append_left _)
    rw [← List.append_assoc, ← List.append_assoc]
    exact List.perm_append_comm.append_right stack
  · rw [List.nodup_append]
    refine ⟨(hnodup node).filter _, h.nodup, ?_⟩
    rintro i hi j hj rfl
    simp only [List.mem_filter, Bool.not_eq_true', List.contains_eq_mem, decide_eq_false_iff_not]
      at hi
    exact hi.2 hj
  · intro i hi
    rcases List.mem_append.1 hi with hi | hi
    · exact hlt (List.mem_of_mem_filter hi)
    · exact h.lt i hi
  · intro i hi j hj
    by_cases hjs : j ∈ seen
    · exact List.mem_append_right _ hjs
    · rcases List.mem_append.1 hi with hi | hi
      · exact absurd (h.closed i hi j hj) hjs
      · obtain rfl := List.mem_singleton.1 hi
        refine List.mem_append_left _ (List.mem_filter.2 ⟨hj, ?_⟩)
        simpa using hjs

theorem search_spec (hnodup : ∀ i, (next i).Nodup) (hlt : ∀ {i j}, j ∈ next i → j < n)
    (rounds : Nat) {yielded stack seen : List Nat} (h : Searching next n yielded stack seen)
    (hrounds : n ≤ rounds + yielded.length) :
    Searching next n (yielded ++ search next rounds stack seen) []
        (yielded ++ search next rounds stack seen) ∧
      (∀ i ∈ stack, i ∈ search next rounds stack seen) ∧
      ∀ i ∈ search next rounds stack seen, ∃ s ∈ stack, ReflTransGen (StepsTo next) s i := by
  induction rounds generalizing yielded stack seen with
  | zero =>
    have hlen : (yielded ++ stack).length ≤ n := by
      rw [h.marks.length_eq]
      exact length_le_of_nodup_lt h.nodup h.lt
    have hstack : stack = [] := by
      rw [List.length_append] at hlen
      exact List.eq_nil_of_length_eq_zero (by omega)
    subst hstack
    have hmarks : yielded.Perm seen := by simpa using h.marks
    simp only [search, List.append_nil, List.not_mem_nil, false_imp_iff, implies_true, and_true]
    exact ⟨by simp, hmarks.nodup_iff.2 h.nodup, fun i hi => h.lt i (hmarks.mem_iff.1 hi),
      fun i hi j hj => hmarks.mem_iff.2 (h.closed i hi j hj)⟩
  | succ rounds ih =>
    cases stack with
    | nil =>
      have hmarks : yielded.Perm seen := by simpa using h.marks
      simp only [search, List.append_nil, List.not_mem_nil, false_imp_iff, implies_true, and_true]
      exact ⟨by simp, hmarks.nodup_iff.2 h.nodup, fun i hi => h.lt i (hmarks.mem_iff.1 hi),
        fun i hi j hj => hmarks.mem_iff.2 (h.closed i hi j hj)⟩
    | cons node stack =>
      obtain ⟨hend, hstack, hreach⟩ := ih (h.step hnodup hlt) (by simp; omega)
      rw [List.append_assoc, List.singleton_append] at hend
      simp only [search]
      refine ⟨hend, ?_, ?_⟩
      · intro i hi
        rcases List.mem_cons.1 hi with rfl | hi
        · exact List.mem_cons_self
        · exact List.mem_cons_of_mem _ (hstack i (List.mem_append_right _ hi))
      · intro i hi
        rcases List.mem_cons.1 hi with rfl | hi
        · exact ⟨i, List.mem_cons_self, .refl⟩
        · obtain ⟨s, hs, hsi⟩ := hreach i hi
          rcases List.mem_append.1 hs with hs | hs
          · exact ⟨node, List.mem_cons_self, .head (List.mem_of_mem_filter hs) hsi⟩
          · exact ⟨s, List.mem_cons_of_mem _ hs, hsi⟩

theorem searching_start {start : Nat} (hs : start < n) : Searching next n [] [start] [start] :=
  ⟨.refl _, List.nodup_singleton start, fun _ hi => List.mem_singleton.1 hi ▸ hs,
    fun _ hi => absurd hi List.not_mem_nil⟩

theorem mem_search_iff (hnodup : ∀ i, (next i).Nodup) (hlt : ∀ {i j}, j ∈ next i → j < n)
    {start i : Nat} (hs : start < n) :
    i ∈ search next n [start] [start] ↔ ReflTransGen (StepsTo next) start i := by
  obtain ⟨hend, hstack, hreach⟩ := search_spec hnodup hlt n (searching_start hs) (by simp)
  constructor
  · intro hi
    obtain ⟨s, hs, hsi⟩ := hreach i hi
    exact List.mem_singleton.1 hs ▸ hsi
  · intro h
    induction h with
    | refl => exact hstack start List.mem_cons_self
    | tail _ hstep ih => simpa using hend.closed _ (by simpa using ih) _ hstep

theorem nodup_search (hnodup : ∀ i, (next i).Nodup) (hlt : ∀ {i j}, j ∈ next i → j < n)
    {start : Nat} (hs : start < n) : (search next n [start] [start]).Nodup := by
  have hspec := search_spec hnodup hlt n (searching_start hs) (by simp)
  simpa using hspec.1.nodup

section Rounds

/-- Fewer rounds yield the first places of what more rounds yield. -/
theorem search_eq_take (rounds more : Nat) (stack seen : List Nat) :
    search next rounds stack seen = (search next (rounds + more) stack seen).take rounds := by
  induction rounds generalizing stack seen with
  | zero => simp [search]
  | succ rounds ih =>
    rw [Nat.add_right_comm]
    cases stack with
    | nil => simp [search]
    | cons node stack =>
      simp only [search, List.take_succ_cons]
      rw [ih]

/-- What a search from a place has to yield: all that chains of links lead to, each place once and
the start first. Asked again and again it gives one place after the other, and then no more. -/
structure Explores (next : Nat → List Nat) (start : Nat) (places : List Nat) : Prop where
  mem_iff : ∀ i, i ∈ places ↔ ReflTransGen (StepsTo next) start i
  nodup : places.Nodup
  first : places.head? = some start
  rounds : ∀ rounds, search next rounds [start] [start] = places.take rounds

variable (hnodup : ∀ i, (next i).Nodup) (hlt : ∀ {i j}, j ∈ next i → j < n) {start : Nat}
  (hs : start < n)
include hnodup hlt hs

theorem length_search_le {rounds : Nat} (hrounds : n ≤ rounds) :
    (search next rounds [start] [start]).length ≤ n := by
  obtain ⟨hend, -⟩ := search_spec hnodup hlt rounds (searching_start hs) (by simpa using hrounds)
  rw [List.nil_append] at hend
  exact length_le_of_nodup_lt hend.nodup hend.lt

/-- More rounds than there are places yield nothing more. -/
theorem search_of_le {rounds : Nat} (hrounds : n ≤ rounds) :
    search next rounds [start] [start] = search next n [start] [start] := by
  obtain ⟨more, rfl⟩ := Nat.exists_eq_add_of_le hrounds
  rw [search_eq_take n more, List.take_of_length_le (length_search_le hnodup hlt hs hrounds)]

theorem explores_search : Explores next start (search next n [start] [start]) where
  mem_iff _ := mem_search_iff hnodup hlt hs
  nodup := nodup_search hnodup hlt hs
  first := by
    obtain ⟨m, rfl⟩ := Nat.exists_eq_add_of_lt hs
    rfl
  rounds rounds := by
    rcases Nat.le_total rounds n with hle | hle
    · obtain ⟨more, rfl⟩ := Nat.exists_eq_add_of_le hle
      exact search_eq_take rounds more _ _
    · have hlen := length_search_le hnodup hlt hs (Nat.le_refl n)
      rw [search_of_le hnodup hlt hs hle, List.take_of_length_le (Nat.le_trans hlen hle)]

end Rounds

end Search

variable {g : Adjacency α} {start i : Nat}

theorem mem_forward_iff (h : g.Indexed) (hs : start < g.size) :
    i ∈ g.forward start ↔ ReflTransGen (StepsTo g.successors) start i :=
  mem_search_iff h.successors_nodup h.successor_lt hs

theorem nodup_forward (h : g.Indexed) (hs : start < g.size) : (g.forward start).Nodup :=
  nodup_search h.successors_nodup h.successor_lt hs

theorem mem_backward_iff (h : g.Indexed) (hs : start < g.size) :
    i ∈ g.backward start ↔ ReflTransGen (StepsTo g.predecessors) start i :=
  mem_search_iff h.predecessors_nodup h.predecessor_lt hs

theorem nodup_backward (h : g.Indexed) (hs : start < g.size) : (g.backward start).Nodup :=
  nodup_search h.predecessors_nodup h.predecessor_lt hs

section Directions
variable {j : Nat}

/-- A chain of links read from its end is a chain of links the other way. -/
theorem mem_forward_iff_mem_backward (h : g.Indexed) (hi : i < g.size) (hj : j < g.size) :
    j ∈ g.forward i ↔ i ∈ g.backward j := by
  have hswap : StepsTo g.predecessors = Function.swap (StepsTo g.successors) := by
    funext k l
    exact propext h.mirror.symm
  rw [mem_forward_iff h hi, mem_backward_iff h hj, hswap, Relation.reflTransGen_swap]

variable [DecidableEq α]

/-- Whatever the edges are, the search from a place is exact in both directions, and one place is
yielded from another exactly if the other is yielded backward from the one. -/
theorem searches_are_exact {ids : List α} {edges : List (α × α)} (hg : g = ofEdges ids edges) :
    (∀ start < g.size, Explores g.successors start (g.forward start) ∧
      Explores g.predecessors start (g.backward start)) ∧
    ∀ i < g.size, ∀ j < g.size, j ∈ g.forward i ↔ i ∈ g.backward j := by
  have h : g.Indexed := hg ▸ indexed_ofEdges ids edges
  refine ⟨fun start hs => ⟨?_, ?_⟩, fun i hi j hj => mem_forward_iff_mem_backward h hi hj⟩
  · exact explores_search h.successors_nodup h.successor_lt hs
  · exact explores_search h.predecessors_nodup h.predecessor_lt hs

/-- A way leads into a cycle, and two ways out of it. -/
def junction : Adjacency String :=
  ofEdges ["in", "a", "b", "out"] [("in", "b"), ("b", "a"), ("a", "b"), ("b", "out"), ("a", "out")]

theorem junction_searches : 0 < junction.size ∧ 3 < junction.size ∧
    junction.forward 0 = [0, 2, 1, 3] ∧ Explores junction.successors 0 [0, 2, 1, 3] ∧
    junction.backward 3 = [3, 2, 0, 1] ∧ Explores junction.predecessors 3 [3, 2, 0, 1] ∧
    (3 ∈ junction.forward 0 ↔ 0 ∈ junction.backward 3) := by
  have hforward : junction.forward 0 = [0, 2, 1, 3] := by decide +kernel
  have hbackward : junction.backward 3 = [3, 2, 0, 1] := by decide +kernel
  have hin : 0 < junction.size := by decide +kernel
  have hout : 3 < junction.size := by decide +kernel
  obtain ⟨hexact, hconverse⟩ := searches_are_exact (g := junction) rfl
  exact ⟨hin, hout, hforward, hforward ▸ (hexact 0 hin).1, hbackward, hbackward ▸ (hexact 3 hout).2,
    hconverse 0 hin 3 hout⟩

end Directions

end TypedFlow.Adjacency
