import TypedFlow.Proofs.Schedule.Reachable
import TypedFlow.Schedule.PostOrder

/-!
# Post-orders are exact and topological

A visit enters new places only and yields exactly those that it entered, so the places entered but
not yet yielded are the same after it as before: they are the ones on the path to the current node.
All of them follow the current node, hence none precedes it unless there is a cycle; this is what
puts every place after its predecessors.
-/
namespace TypedFlow.Adjacency
open Relation (ReflTransGen TransGen)
variable {α : Type} {g : Adjacency α}

def Acyclic (g : Adjacency α) : Prop := ∀ i, ¬ TransGen (StepsTo g.successors) i i

theorem not_transGen_predecessors (h : g.Indexed) (ha : g.Acyclic) (i : Nat) :
    ¬ TransGen (StepsTo g.predecessors) i i := by
  intro hc
  have hswap : TransGen (Function.swap (StepsTo g.predecessors)) i i := Relation.transGen_swap.2 hc
  exact ha i (TransGen.mono (fun _ _ hstep => h.mirror.2 hstep) i i hswap)

/-- What holds of a walk between two visits. -/
structure Walk.Sane (g : Adjacency α) (w : Walk) : Prop where
  nodup : w.entered.Nodup
  lt : ∀ i ∈ w.entered, i < g.size
  yielded_nodup : w.yielded.Nodup
  yielded_subset : w.yielded ⊆ w.entered
  closed : ∀ i ∈ w.yielded, ∀ p ∈ g.predecessors i, p ∈ w.entered

/-- Both lists of a walk grow, by the same places, and these have a property. -/
structure Walk.Grows (P : Nat → Prop) (w w' : Walk) : Prop where
  entered : w.entered <:+ w'.entered
  yielded : w.yielded <:+ w'.yielded
  fresh : ∀ i ∈ w'.entered, i ∉ w.entered → i ∈ w'.yielded ∧ P i
  kept : ∀ i ∈ w'.yielded, i ∉ w.yielded → i ∉ w.entered

theorem Walk.Grows.refl (P : Nat → Prop) (w : Walk) : w.Grows P w :=
  ⟨List.suffix_refl _, List.suffix_refl _, fun _ h hn => absurd h hn, fun _ h hn => absurd h hn⟩

theorem Walk.Grows.mono {P Q : Nat → Prop} {w w' : Walk} (h : w.Grows P w')
    (hpq : ∀ i, P i → Q i) : w.Grows Q w' :=
  ⟨h.entered, h.yielded, fun i hi hn => (h.fresh i hi hn).imp id (hpq i), h.kept⟩

theorem Walk.Grows.trans {P : Nat → Prop} {w w' w'' : Walk} (h : w.Grows P w')
    (h' : w'.Grows P w'') : w.Grows P w'' where
  entered := h.entered.trans h'.entered
  yielded := h.yielded.trans h'.yielded
  fresh i hi hn := by
    by_cases hm : i ∈ w'.entered
    · obtain ⟨hy, hp⟩ := h.fresh i hm hn
      exact ⟨h'.yielded.subset hy, hp⟩
    · exact h'.fresh i hi hm
  kept i hi hn := by
    by_cases hm : i ∈ w'.yielded
    · exact h.kept i hm hn
    · exact fun he => h'.kept i hi hm (h.entered.subset he)

/-- A place that is entered and not yielded was so before the walk grew. -/
theorem Walk.Grows.open_iff {P : Nat → Prop} {w w' : Walk} (h : w.Grows P w') {i : Nat}
    (he : i ∈ w'.entered) (hy : i ∉ w'.yielded) : i ∈ w.entered ∧ i ∉ w.yielded := by
  refine ⟨?_, fun hw => hy (h.yielded.subset hw)⟩
  by_contra hn
  exact hy (h.fresh i he hn).1

theorem Walk.Sane.length_le {w : Walk} (h : w.Sane g) : w.entered.length ≤ g.size :=
  length_le_of_nodup_lt h.nodup h.lt

/-- When as many places are entered as there are, every place is. -/
theorem Walk.Sane.mem_of_size_le {w : Walk} (h : w.Sane g) (hs : g.size ≤ w.entered.length)
    {i : Nat} (hi : i < g.size) : i ∈ w.entered := by
  have hsub : w.entered.Subperm (List.range g.size) :=
    List.subperm_of_subset h.nodup fun j hj => List.mem_range.2 (h.lt j hj)
  have hperm := hsub.perm_of_length_le (by simpa using hs)
  exact hperm.mem_iff.2 (List.mem_range.2 hi)

theorem Walk.Sane.enter {w : Walk} (h : w.Sane g) {node : Nat} (hn : node < g.size)
    (hnew : node ∉ w.entered) : Walk.Sane g { w with entered := node :: w.entered } where
  nodup := List.nodup_cons.2 ⟨hnew, h.nodup⟩
  lt i hi := by
    rcases List.mem_cons.1 hi with rfl | hi
    · exact hn
    · exact h.lt i hi
  yielded_nodup := h.yielded_nodup
  yielded_subset := List.subset_cons_of_subset node h.yielded_subset
  closed i hi p hp := List.mem_cons_of_mem node (h.closed i hi p hp)

/-- What a visit does while `depth` further levels may be opened. -/
def VisitSpec (g : Adjacency α) (depth : Nat) : Prop :=
  ∀ (w : Walk) (node : Nat), w.Sane g → node < g.size → g.size ≤ depth + w.entered.length →
    (g.visit depth w node).Sane g ∧ node ∈ (g.visit depth w node).entered ∧
      w.Grows (ReflTransGen (StepsTo g.predecessors) node) (g.visit depth w node)

theorem visitAll_spec {depth : Nat} (hv : VisitSpec g depth) (nodes : List Nat) {w : Walk}
    (hw : w.Sane g) (hlt : ∀ i ∈ nodes, i < g.size) (hd : g.size ≤ depth + w.entered.length) :
    (nodes.foldl (g.visit depth) w).Sane g ∧
      (∀ i ∈ nodes, i ∈ (nodes.foldl (g.visit depth) w).entered) ∧
      w.Grows (fun i => ∃ s ∈ nodes, ReflTransGen (StepsTo g.predecessors) s i)
        (nodes.foldl (g.visit depth) w) := by
  induction nodes generalizing w with
  | nil => exact ⟨hw, fun _ hi => absurd hi List.not_mem_nil, .refl _ w⟩
  | cons node nodes ih =>
    obtain ⟨hw₁, hnode, hg₁⟩ := hv w node hw (hlt node List.mem_cons_self) hd
    have hlen := hg₁.entered.length_le
    obtain ⟨hw₂, hnodes, hg₂⟩ :=
      ih hw₁ (fun i hi => hlt i (List.mem_cons_of_mem node hi)) (by omega)
    refine ⟨hw₂, ?_, ?_⟩
    · intro i hi
      rcases List.mem_cons.1 hi with rfl | hi
      · exact hg₂.entered.subset hnode
      · exact hnodes i hi
    · refine .trans (hg₁.mono fun i hi => ⟨node, List.mem_cons_self, hi⟩) (hg₂.mono ?_)
      rintro i ⟨s, hs, hsi⟩
      exact ⟨s, List.mem_cons_of_mem node hs, hsi⟩

theorem visit_spec (h : g.Indexed) (depth : Nat) : VisitSpec g depth := by
  induction depth with
  | zero =>
    intro w node hw hn hd
    exact ⟨hw, hw.mem_of_size_le (by simpa using hd) hn, .refl _ w⟩
  | succ depth ih =>
    intro w node hw hn hd
    by_cases hmem : node ∈ w.entered
    · have hvisit : g.visit (depth + 1) w node = w := by simp [visit, hmem]
      rw [hvisit]
      exact ⟨hw, hmem, .refl _ w⟩
    · obtain ⟨hw₁, hpreds, hg₁⟩ := visitAll_spec ih (g.predecessors node) (hw.enter hn hmem)
        (fun i hi => h.predecessor_lt hi) (by simp; omega)
      generalize hfold : (g.predecessors node).foldl (g.visit depth)
        { w with entered := node :: w.entered } = w₁ at hw₁ hpreds hg₁
      have hvisit : g.visit (depth + 1) w node = { w₁ with yielded := node :: w₁.yielded } := by
        simp [visit, hmem, hfold]
      have hentered : node ∈ w₁.entered := hg₁.entered.subset List.mem_cons_self
      -- The node itself was open during the visits to its predecessors, so they did not yield it.
      have hopen : node ∉ w₁.yielded := fun hy =>
        hg₁.kept node hy (fun hyw => hmem (hw.yielded_subset hyw)) List.mem_cons_self
      rw [hvisit]
      refine ⟨⟨hw₁.nodup, hw₁.lt, List.nodup_cons.2 ⟨hopen, hw₁.yielded_nodup⟩, ?_, ?_⟩,
        hentered, ?_, ?_, ?_, ?_⟩
      · exact List.cons_subset.2 ⟨hentered, hw₁.yielded_subset⟩
      · intro i hi p hp
        rcases List.mem_cons.1 hi with rfl | hi
        · exact hpreds p hp
        · exact hw₁.closed i hi p hp
      · exact (List.suffix_cons node w.entered).trans hg₁.entered
      · exact hg₁.yielded.trans (List.suffix_cons node w₁.yielded)
      · intro i hi hni
        by_cases hin : i = node
        · exact hin ▸ ⟨List.mem_cons_self, .refl⟩
        · have hni' : i ∉ node :: w.entered := by simp [hin, hni]
          obtain ⟨hy, s, hs, hsi⟩ := hg₁.fresh i hi hni'
          exact ⟨List.mem_cons_of_mem node hy, .head hs hsi⟩
      · intro i hi hni
        rcases List.mem_cons.1 hi with rfl | hi
        · exact hmem
        · exact fun hiw => hg₁.kept i hi hni (List.mem_cons_of_mem node hiw)

/-- Every place comes after those it is linked to, the list having the latest place first. -/
def Grounded (next : Nat → List Nat) : List Nat → Prop
  | [] => True
  | i :: earlier => (∀ p ∈ next i, p ∈ earlier) ∧ Grounded next earlier

theorem Grounded.mem {next : Nat → List Nat} {yielded later earlier : List Nat} {i : Nat}
    (h : Grounded next yielded) (hy : yielded = later ++ i :: earlier) {p : Nat}
    (hp : p ∈ next i) : p ∈ earlier := by
  subst hy
  induction later with
  | nil => exact h.1 p hp
  | cons j later ih => exact ih h.2

/-- The places that are open follow a node. -/
def OpenFollow (g : Adjacency α) (w : Walk) (node : Nat) : Prop :=
  ∀ i ∈ w.entered, i ∉ w.yielded → TransGen (StepsTo g.predecessors) i node

theorem visitAll_grounded {depth : Nat} (h : g.Indexed)
    (hv : ∀ (w : Walk) (node : Nat), w.Sane g → node < g.size → g.size ≤ depth + w.entered.length →
      OpenFollow g w node → Grounded g.predecessors w.yielded →
      Grounded g.predecessors (g.visit depth w node).yielded)
    (nodes : List Nat) {w : Walk} (hw : w.Sane g) (hlt : ∀ i ∈ nodes, i < g.size)
    (hd : g.size ≤ depth + w.entered.length) (ho : ∀ i ∈ nodes, OpenFollow g w i)
    (hg : Grounded g.predecessors w.yielded) :
    Grounded g.predecessors (nodes.foldl (g.visit depth) w).yielded := by
  induction nodes generalizing w with
  | nil => exact hg
  | cons node nodes ih =>
    have hnode := hlt node List.mem_cons_self
    obtain ⟨hw₁, -, hg₁⟩ := visit_spec h depth w node hw hnode hd
    have hlen := hg₁.entered.length_le
    refine ih hw₁ (fun i hi => hlt i (List.mem_cons_of_mem node hi)) (by omega) ?_
      (hv w node hw hnode hd (ho node List.mem_cons_self) hg)
    intro i hi j hj hjy
    obtain ⟨hjw, hjn⟩ := hg₁.open_iff hj hjy
    exact ho i (List.mem_cons_of_mem node hi) j hjw hjn

theorem visit_grounded (h : g.Indexed) (ha : g.Acyclic) (depth : Nat) (w : Walk) (node : Nat)
    (hw : w.Sane g) (hn : node < g.size) (hd : g.size ≤ depth + w.entered.length)
    (ho : OpenFollow g w node) (hg : Grounded g.predecessors w.yielded) :
    Grounded g.predecessors (g.visit depth w node).yielded := by
  induction depth generalizing w node with
  | zero => exact hg
  | succ depth ih =>
    by_cases hmem : node ∈ w.entered
    · simpa [visit, hmem] using hg
    · have hlt : ∀ i ∈ g.predecessors node, i < g.size := fun i hi => h.predecessor_lt hi
      have hd₁ : g.size ≤ depth + (node :: w.entered).length := by simp; omega
      have ho₁ : ∀ p ∈ g.predecessors node,
          OpenFollow g { w with entered := node :: w.entered } p := by
        intro p hp i hi hiy
        rcases List.mem_cons.1 hi with rfl | hi
        · exact .single hp
        · exact (ho i hi hiy).tail hp
      have hgrounded := visitAll_grounded h ih (g.predecessors node) (hw.enter hn hmem) hlt hd₁
        ho₁ hg
      obtain ⟨-, hpreds, hg₁⟩ :=
        visitAll_spec (visit_spec h depth) (g.predecessors node) (hw.enter hn hmem) hlt hd₁
      have hvisit : (g.visit (depth + 1) w node).yielded = node ::
          ((g.predecessors node).foldl (g.visit depth)
            { w with entered := node :: w.entered }).yielded := by
        simp [visit, hmem]
      rw [hvisit]
      refine ⟨fun p hp => ?_, hgrounded⟩
      by_contra hpy
      obtain ⟨hpw, hpn⟩ := hg₁.open_iff (hpreds p hp) hpy
      exact not_transGen_predecessors h ha p (ho₁ p hp p hpw hpn)

section WalkFrom
variable {starts : List Nat} (h : g.Indexed) (hs : ∀ i ∈ starts, i < g.size)
include h hs

theorem walk_spec :
    let w := starts.foldl (g.visit g.size) ⟨[], []⟩
    w.Sane g ∧ (∀ i ∈ starts, i ∈ w.entered) ∧
      Walk.Grows (fun i => ∃ s ∈ starts, ReflTransGen (StepsTo g.predecessors) s i) ⟨[], []⟩ w :=
  visitAll_spec (visit_spec h g.size) starts ⟨List.nodup_nil, by simp, List.nodup_nil, by simp,
    by simp⟩ hs (by simp)

theorem nodup_walkFrom : (g.walkFrom starts).Nodup :=
  List.nodup_reverse.2 (walk_spec h hs).1.yielded_nodup

theorem mem_walkFrom_iff {i : Nat} :
    i ∈ g.walkFrom starts ↔ ∃ s ∈ starts, ReflTransGen (StepsTo g.predecessors) s i := by
  obtain ⟨hsane, hstarts, hgrows⟩ := walk_spec h hs
  have hyielded : ∀ i ∈ (starts.foldl (g.visit g.size) ⟨[], []⟩).entered,
      i ∈ (starts.foldl (g.visit g.size) ⟨[], []⟩).yielded := fun i hi =>
    (hgrows.fresh i hi List.not_mem_nil).1
  simp only [walkFrom]
  rw [List.mem_reverse]
  constructor
  · exact fun hi => (hgrows.fresh i (hsane.yielded_subset hi) List.not_mem_nil).2
  · intro hh
    obtain ⟨s, hs', hsi⟩ := hh
    induction hsi with
    | refl => exact hyielded s (hstarts s hs')
    | tail _ hstep ih => exact hyielded _ (hsane.closed _ ih _ hstep)

theorem walkFrom_topological (ha : g.Acyclic) {before after : List Nat} {i : Nat}
    (heq : g.walkFrom starts = before ++ i :: after) {p : Nat} (hp : p ∈ g.predecessors i) :
    p ∈ before := by
  have hgrounded : Grounded g.predecessors (starts.foldl (g.visit g.size) ⟨[], []⟩).yielded :=
    visitAll_grounded h (visit_grounded h ha g.size) starts
      ⟨List.nodup_nil, by simp, List.nodup_nil, by simp, by simp⟩ hs (by simp)
      (fun _ _ _ hj => absurd hj List.not_mem_nil) trivial
  have hrev := congrArg List.reverse heq
  rw [walkFrom, List.reverse_reverse, List.reverse_append, List.reverse_cons, List.append_assoc]
    at hrev
  exact List.mem_reverse.1 (hgrounded.mem hrev hp)

end WalkFrom

theorem mem_postOrder_iff (h : g.Indexed) {i : Nat} : i ∈ g.postOrder ↔ i < g.size := by
  rw [postOrder, mem_walkFrom_iff h fun _ hi => List.mem_range.1 hi]
  constructor
  · intro hh
    obtain ⟨s, hs, hsi⟩ := hh
    induction hsi with
    | refl => exact List.mem_range.1 hs
    | tail _ hstep _ => exact h.predecessor_lt hstep
  · exact fun hi => ⟨i, List.mem_range.2 hi, .refl⟩

theorem mem_ancestorsOf_iff (h : g.Indexed) {start i : Nat} (hs : start < g.size) :
    i ∈ g.ancestorsOf start ↔ ReflTransGen (StepsTo g.predecessors) start i := by
  rw [ancestorsOf, mem_walkFrom_iff h fun _ hi => List.mem_singleton.1 hi ▸ hs]
  simp

section Orders

/-- Every place comes after its predecessors. -/
def Topological (g : Adjacency α) (order : List Nat) : Prop :=
  ∀ before i after, order = before ++ i :: after → ∀ p ∈ g.predecessors i, p ∈ before

theorem idxOf_lt_of_append {β : Type} [DecidableEq β] {items before after : List β} {a b : β}
    (hn : items.Nodup) (heq : items = before ++ b :: after) (ha : a ∈ before) :
    items.idxOf a < items.idxOf b := by
  rw [heq, List.nodup_append] at hn
  have hb : b ∉ before := fun hb => hn.2.2 b hb b List.mem_cons_self rfl
  rw [heq, List.idxOf_append_of_mem ha, List.idxOf_append_of_notMem hb, List.idxOf_cons_self,
    Nat.add_zero]
  exact List.idxOf_lt_length_of_mem ha

/-- The walk from a place yields this place once it is done with everything else. -/
theorem exists_ancestorsOf_eq {start : Nat} (hs : start < g.size) :
    ∃ earlier, g.ancestorsOf start = earlier ++ [start] := by
  obtain ⟨depth, hdepth⟩ := Nat.exists_eq_succ_of_ne_zero (Nat.ne_zero_of_lt hs)
  simp [ancestorsOf, walkFrom, hdepth, visit]

variable (h : g.Indexed)
include h

theorem postOrder_perm : g.postOrder.Perm (List.range g.size) :=
  (List.perm_ext_iff_of_nodup (nodup_walkFrom h fun _ hi => List.mem_range.1 hi)
    List.nodup_range).2 fun _ => (mem_postOrder_iff h).trans List.mem_range.symm

theorem topological_postOrder (ha : g.Acyclic) : g.Topological g.postOrder :=
  fun _ _ _ heq _ hp => walkFrom_topological h (fun _ hi => List.mem_range.1 hi) ha heq hp

/-- In a graph that is free of cycles the post-order ranks the places. -/
theorem idxOf_postOrder_lt (ha : g.Acyclic) {i j : Nat} (hstep : j ∈ g.successors i) :
    g.postOrder.idxOf i < g.postOrder.idxOf j := by
  obtain ⟨before, after, heq⟩ :=
    List.append_of_mem ((mem_postOrder_iff h).2 (h.successor_lt hstep))
  exact idxOf_lt_of_append (nodup_walkFrom h fun _ hi => List.mem_range.1 hi) heq
    (topological_postOrder h ha before j after heq i (h.mirror.1 hstep))

/-- Conversely, where steps lead up in some rank there are no cycles. -/
theorem acyclic_of_rank {rank : Nat → Nat}
    (hrank : ∀ i < g.size, ∀ j ∈ g.successors i, rank i < rank j) : g.Acyclic := by
  intro i hc
  have hstep : ∀ {a b}, StepsTo g.successors a b → rank a < rank b := fun {a b} hab =>
    hrank a (h.predecessor_lt (h.mirror.1 hab)) b hab
  have hlt : ∀ {b}, TransGen (StepsTo g.successors) i b → rank i < rank b := by
    intro b hb
    induction hb with
    | single hab => exact hstep hab
    | tail _ hab ih => exact Nat.lt_trans ih (hstep hab)
  exact Nat.lt_irrefl _ (hlt hc)

variable {start : Nat} (hs : start < g.size)
include hs

theorem nodup_ancestorsOf : (g.ancestorsOf start).Nodup :=
  nodup_walkFrom h fun _ hi => List.mem_singleton.1 hi ▸ hs

theorem ancestorsOf_perm_backward : (g.ancestorsOf start).Perm (g.backward start) :=
  (List.perm_ext_iff_of_nodup (nodup_ancestorsOf h hs) (nodup_backward h hs)).2 fun _ =>
    (mem_ancestorsOf_iff h hs).trans (mem_backward_iff h hs).symm

theorem topological_ancestorsOf (ha : g.Acyclic) : g.Topological (g.ancestorsOf start) :=
  fun _ _ _ heq _ hp =>
    walkFrom_topological h (fun _ hi => List.mem_singleton.1 hi ▸ hs) ha heq hp

end Orders

section Walks
variable [DecidableEq α]

/-- Whatever the edges are, the post-order has every place once, and the walk from a place has what
the backward search from there has, each once and the place last; both put every place after its
predecessors unless there is a cycle. -/
theorem post_orders_are_exact {g : Adjacency α} {ids : List α} {edges : List (α × α)}
    (hg : g = ofEdges ids edges) :
    g.postOrder.Perm (List.range g.size) ∧
    (∀ start < g.size, (g.ancestorsOf start).Perm (g.backward start) ∧
      (g.ancestorsOf start).Nodup ∧ (g.ancestorsOf start).getLast? = some start) ∧
    (g.Acyclic → g.Topological g.postOrder ∧
      ∀ start < g.size, g.Topological (g.ancestorsOf start)) := by
  have h : g.Indexed := hg ▸ indexed_ofEdges ids edges
  refine ⟨postOrder_perm h, fun start hs => ?_, fun ha => ?_⟩
  · obtain ⟨earlier, heq⟩ := exists_ancestorsOf_eq hs
    refine ⟨ancestorsOf_perm_backward h hs, nodup_ancestorsOf h hs, ?_⟩
    rw [heq, List.getLast?_concat]
  · exact ⟨topological_postOrder h ha, fun start hs => topological_ancestorsOf h hs ha⟩

/-- Two ways lead from the last place to the first. -/
def square : Adjacency String :=
  ofEdges ["a", "b", "c", "d"] [("d", "b"), ("d", "c"), ("b", "a"), ("c", "a"), ("d", "b")]

theorem square_acyclic : square.Acyclic :=
  acyclic_of_rank (indexed_ofEdges _ _) (show ∀ i < square.size, ∀ j ∈ square.successors i,
    4 - i < 4 - j by decide +kernel)

theorem square_post_orders : square.Acyclic ∧ 2 < square.size ∧
    square.postOrder = [3, 1, 2, 0] ∧ square.Topological square.postOrder ∧
    square.ancestorsOf 2 = [3, 2] ∧ square.backward 2 = [2, 3] ∧
    (square.ancestorsOf 2).Perm (square.backward 2) ∧
    square.Topological (square.ancestorsOf 2) := by
  have hs : 2 < square.size := by decide +kernel
  obtain ⟨-, hancestors, htopological⟩ := post_orders_are_exact (g := square) rfl
  obtain ⟨hpost, hfrom⟩ := htopological square_acyclic
  exact ⟨square_acyclic, hs, by decide +kernel, hpost, by decide +kernel, by decide +kernel,
    (hancestors 2 hs).1, hfrom 2 hs⟩

end Walks

end TypedFlow.Adjacency
