import Mathlib.Data.List.Chain
import TypedFlow.Proofs.Schedule.PostOrder
import TypedFlow.Schedule.Paths

/-!
# The enumeration of paths is exact

The search for paths goes on from the node at the end of the path so far to each successor that is
not on it. What it yields are therefore the ways on to a node that nothing follows along which no
node comes up twice; as many levels as there are places suffice for them. Different successors give
different paths, so none is yielded twice, and the paths come in the order of the successors at
which they part. Asked for the first few, the search gives these and no others.

Without cycles steps lead up in a rank, so every place can be followed back to where a path begins
and on to where it ends.
-/
namespace TypedFlow.Adjacency
variable {α : Type} {g : Adjacency α}

section Ranks
variable {β : Type} {step : β → β → Prop} {rank : β → Nat} {bound : Nat}

/-- A path along steps that cannot be continued at either end. -/
structure EndToEnd (step : β → β → Prop) (path : List β) : Prop where
  first : ∀ a ∈ path.head?, ∀ b, ¬ step b a
  chain : path.IsChain step
  last : ∀ a ∈ path.getLast?, ∀ b, ¬ step a b

variable (hstep : ∀ a b, step a b → rank a < rank b ∧ rank b < bound)
include hstep

theorem pairwise_rank_lt {path : List β} (h : path.IsChain step) :
    path.Pairwise fun a b => rank a < rank b := by
  have htrans : IsTrans β fun a b => rank a < rank b := ⟨fun _ _ _ => Nat.lt_trans⟩
  exact List.isChain_iff_pairwise.1 (h.imp fun a b hab => (hstep a b hab).1)

theorem nodup_of_isChain {path : List β} (h : path.IsChain step) : path.Nodup :=
  (pairwise_rank_lt hstep h).imp fun {_ _} hlt heq => Nat.ne_of_lt hlt (congrArg rank heq)

theorem exists_onward (a : β) : ∃ rest, (a :: rest).IsChain step ∧
    ∀ z ∈ (a :: rest).getLast?, ∀ b, ¬ step z b := by
  -- The ranks ascend and have a bound.
  induction hn : bound - rank a using Nat.strongRecOn generalizing a with
  | ind n ih =>
    by_cases hout : ∃ b, step a b
    · obtain ⟨b, hab⟩ := hout
      obtain ⟨hlt, hbound⟩ := hstep a b hab
      obtain ⟨rest, hchain, hlast⟩ := ih _ (by omega) b rfl
      refine ⟨b :: rest, hchain.cons_cons hab, ?_⟩
      rwa [List.getLast?_cons_cons]
    · refine ⟨[], List.isChain_singleton a, fun z hz b hzb => hout ⟨b, ?_⟩⟩
      obtain rfl : a = z := by simpa using hz
      exact hzb

theorem exists_origin (z : β) : ∃ before, (before ++ [z]).IsChain step ∧
    ∀ a ∈ (before ++ [z]).head?, ∀ b, ¬ step b a := by
  induction hn : rank z using Nat.strongRecOn generalizing z with
  | ind n ih =>
    by_cases hin : ∃ y, step y z
    · obtain ⟨y, hyz⟩ := hin
      obtain ⟨before, hchain, hfirst⟩ := ih _ (hn ▸ (hstep y z hyz).1) y rfl
      refine ⟨before ++ [y], ?_, ?_⟩
      · rw [List.append_assoc]
        exact List.isChain_append_cons_cons.2 ⟨hchain, hyz, List.isChain_singleton z⟩
      · rwa [List.head?_append_of_ne_nil _ (by simp)]
    · refine ⟨[], List.isChain_singleton z, fun a ha b hba => hin ⟨b, ?_⟩⟩
      obtain rfl : z = a := by simpa using ha
      exact hba

theorem exists_endToEnd_of_mem (a : β) : ∃ path, EndToEnd step path ∧ a ∈ path := by
  obtain ⟨before, hbefore, hfirst⟩ := exists_origin hstep a
  obtain ⟨rest, hrest, hlast⟩ := exists_onward hstep a
  refine ⟨before ++ a :: rest, ⟨?_, List.isChain_split.2 ⟨hbefore, hrest⟩, ?_⟩,
    List.mem_append_right _ List.mem_cons_self⟩
  · rwa [List.append_cons, List.head?_append_of_ne_nil _ (by simp)]
  · rwa [List.getLast?_append_of_ne_nil _ (List.cons_ne_nil _ _)]

theorem exists_endToEnd_of_step {a b : β} (h : step a b) :
    ∃ path, EndToEnd step path ∧ [a, b] <:+: path := by
  obtain ⟨before, hbefore, hfirst⟩ := exists_origin hstep a
  obtain ⟨rest, hrest, hlast⟩ := exists_onward hstep b
  refine ⟨before ++ a :: b :: rest,
    ⟨?_, List.isChain_append_cons_cons.2 ⟨hbefore, h, hrest⟩, ?_⟩, before, rest, by simp⟩
  · rwa [List.append_cons, List.head?_append_of_ne_nil _ (by simp)]
  · rwa [List.getLast?_append_of_ne_nil _ (List.cons_ne_nil _ _), List.getLast?_cons_cons]

end Ranks

/-- The first place of a path is where some place of it is and where all steps begin. -/
theorem exists_head_of_mem {β : Type} {step : β → β → Prop} {P : β → Prop}
    (hP : ∀ a b, step a b → P a) {path : List β} (h : path.IsChain step) {a : β} (hmem : a ∈ path)
    (ha : P a) : ∃ b ∈ path.head?, P b := by
  cases path with
  | nil => cases hmem
  | cons b rest =>
    refine ⟨b, rfl, ?_⟩
    cases rest with
    | nil => exact List.mem_singleton.1 hmem ▸ ha
    | cons c rest => exact hP b c (List.isChain_cons_cons.1 h).1

def EndsOut (g : Adjacency α) (path : List Nat) : Prop := ∀ i ∈ path.getLast?, g.successors i = []

/-- A path from a node that nothing precedes, along successors and without repeating a node, to a
node that nothing follows. -/
structure IsPath (g : Adjacency α) (path : List Nat) : Prop where
  root : ∃ i ∈ path.head?, i < g.size ∧ g.predecessors i = []
  chain : path.IsChain (StepsTo g.successors)
  nodup : path.Nodup
  out : g.EndsOut path

theorem endsOut_singleton {i : Nat} : g.EndsOut [i] ↔ g.successors i = [] := by
  simp [EndsOut]

theorem endsOut_cons_cons {i j : Nat} {rest : List Nat} :
    g.EndsOut (i :: j :: rest) ↔ g.EndsOut (j :: rest) := by
  simp [EndsOut]

theorem eq_nil_of_isChain {node : Nat} {rest : List Nat} (hs : g.successors node = [])
    (h : (node :: rest).IsChain (StepsTo g.successors)) : rest = [] := by
  cases rest with
  | nil => rfl
  | cons next rest =>
    have hstep : next ∈ g.successors node := (List.isChain_cons_cons.1 h).1
    rw [hs] at hstep
    cases hstep

theorem mem_onward {path : List Nat} {node i : Nat} :
    i ∈ g.onward path node ↔ i ∈ g.successors node ∧ i ∉ node :: path := by
  simp [onward]

theorem isEmpty_successors_iff {node : Nat} :
    (g.successors node).isEmpty = true ↔ g.successors node = [] :=
  List.isEmpty_iff

/-- The paths through a node are the ways on from it. -/
theorem mem_pathsThrough_iff {depth : Nat} {path : List Nat} {node : Nat} (hn : (node :: path).Nodup)
    {found : List Nat} :
    found ∈ g.pathsThrough depth path node ↔
      ∃ rest, found = (node :: path).reverse ++ rest ∧ found.Nodup ∧
        (node :: rest).IsChain (StepsTo g.successors) ∧ g.EndsOut (node :: rest) ∧
        rest.length < depth := by
  -- Every level adds a node to the path that has led here, so the claim is about any such path.
  induction depth generalizing path node with
  | zero => simp [pathsThrough]
  | succ depth ih =>
    unfold pathsThrough
    split
    · rename_i hempty
      have hs := isEmpty_successors_iff.1 hempty
      rw [List.mem_singleton]
      constructor
      · rintro rfl
        refine ⟨[], by simp, List.nodup_reverse.2 hn, List.isChain_singleton node,
          endsOut_singleton.2 hs, Nat.succ_pos depth⟩
      · rintro ⟨rest, rfl, -, hchain, -⟩
        rw [eq_nil_of_isChain hs hchain, List.append_nil]
    · rename_i hempty
      rw [List.mem_flatMap]
      constructor
      · rintro ⟨next, hnext, hfound⟩
        obtain ⟨hstep, hnew⟩ := mem_onward.1 hnext
        obtain ⟨rest, rfl, hnodup, hchain, hout, hlt⟩ :=
          (ih (List.nodup_cons.2 ⟨hnew, hn⟩)).1 hfound
        exact ⟨next :: rest, by simp, hnodup, hchain.cons_cons hstep, endsOut_cons_cons.2 hout,
          Nat.succ_lt_succ hlt⟩
      · rintro ⟨rest, rfl, hnodup, hchain, hout, hlt⟩
        cases rest with
        | nil => exact absurd (isEmpty_successors_iff.2 (endsOut_singleton.1 hout)) hempty
        | cons next rest =>
          obtain ⟨hstep, hchain⟩ := List.isChain_cons_cons.1 hchain
          have hnew : next ∉ node :: path := fun hmem =>
            (List.nodup_append.1 hnodup).2.2 next (List.mem_reverse.2 hmem) next
              List.mem_cons_self rfl
          refine ⟨next, mem_onward.2 ⟨hstep, hnew⟩, (ih (List.nodup_cons.2 ⟨hnew, hn⟩)).2 ?_⟩
          exact ⟨rest, by simp, hnodup, hchain, endsOut_cons_cons.1 hout, Nat.lt_of_succ_lt_succ hlt⟩

/-- A node has other paths through it than its siblings have. -/
theorem disjoint_pathsThrough {depth : Nat} {path : List Nat} {i j : Nat} (hi : (i :: path).Nodup)
    (hj : (j :: path).Nodup) (hne : i ≠ j) :
    List.Disjoint (g.pathsThrough depth path i) (g.pathsThrough depth path j) := by
  intro found hfound hfound'
  obtain ⟨rest, rfl, -⟩ := (mem_pathsThrough_iff hi).1 hfound
  obtain ⟨rest', heq, -⟩ := (mem_pathsThrough_iff hj).1 hfound'
  simp only [List.reverse_cons, List.append_assoc, List.append_cancel_left_eq,
    List.singleton_append, List.cons.injEq] at heq
  exact hne heq.1

/-- What is found by way of different nodes is found once if it is so for each of them. -/
theorem nodup_flatMap_pathsThrough {depth : Nat} {path nodes : List Nat} (hnodes : nodes.Nodup)
    (hnew : ∀ i ∈ nodes, (i :: path).Nodup)
    (h : ∀ i ∈ nodes, (g.pathsThrough depth path i).Nodup) :
    (nodes.flatMap (g.pathsThrough depth path)).Nodup := by
  refine List.nodup_flatMap.2 ⟨h, hnodes.imp_of_mem fun hi hj hne => ?_⟩
  exact disjoint_pathsThrough (hnew _ hi) (hnew _ hj) hne

theorem nodup_pathsThrough (h : g.Indexed) (depth : Nat) {path : List Nat} {node : Nat}
    (hn : (node :: path).Nodup) : (g.pathsThrough depth path node).Nodup := by
  induction depth generalizing path node with
  | zero => exact List.nodup_nil
  | succ depth ih =>
    unfold pathsThrough
    split
    · exact List.nodup_singleton _
    · have hnew : ∀ i ∈ g.onward path node, (i :: node :: path).Nodup := fun i hi =>
        List.nodup_cons.2 ⟨(mem_onward.1 hi).2, hn⟩
      exact nodup_flatMap_pathsThrough ((h.successors_nodup node).filter _) hnew
        fun i hi => ih (hnew i hi)

theorem mem_roots {i : Nat} : i ∈ g.roots ↔ i < g.size ∧ g.predecessors i = [] := by
  simp [roots]

theorem nodup_roots : g.roots.Nodup := List.nodup_range.filter _

theorem nodup_paths (h : g.Indexed) : g.paths.Nodup :=
  nodup_flatMap_pathsThrough nodup_roots (fun i _ => List.nodup_singleton i)
    fun i _ => nodup_pathsThrough h g.size (List.nodup_singleton i)

theorem lt_of_isChain (h : g.Indexed) {node : Nat} {rest : List Nat} (hn : node < g.size)
    (hchain : (node :: rest).IsChain (StepsTo g.successors)) : ∀ i ∈ node :: rest, i < g.size := by
  induction rest generalizing node with
  | nil => exact fun i hi => List.mem_singleton.1 hi ▸ hn
  | cons next rest ih =>
    obtain ⟨hstep, hchain⟩ := List.isChain_cons_cons.1 hchain
    exact List.forall_mem_cons.2 ⟨hn, ih (h.successor_lt hstep) hchain⟩

theorem mem_paths_iff (h : g.Indexed) {path : List Nat} : path ∈ g.paths ↔ g.IsPath path := by
  rw [paths, List.mem_flatMap]
  constructor
  · rintro ⟨root, hroot, hpath⟩
    obtain ⟨rest, rfl, hnodup, hchain, hout, -⟩ :=
      (mem_pathsThrough_iff (List.nodup_singleton root)).1 hpath
    exact ⟨⟨root, rfl, mem_roots.1 hroot⟩, hchain, hnodup, hout⟩
  · rintro ⟨⟨root, hhead, hroot⟩, hchain, hnodup, hout⟩
    obtain ⟨rest, rfl⟩ := List.head?_eq_some_iff.1 hhead
    refine ⟨root, mem_roots.2 hroot, (mem_pathsThrough_iff (List.nodup_singleton root)).2 ?_⟩
    have hlength := length_le_of_nodup_lt hnodup (lt_of_isChain h hroot.1 hchain)
    exact ⟨rest, rfl, hnodup, hchain, hout, hlength⟩

theorem IsPath.lt (h : g.Indexed) {path : List Nat} (hp : g.IsPath path) :
    ∀ i ∈ path, i < g.size := by
  obtain ⟨⟨root, hhead, hroot⟩, hchain, -⟩ := hp
  obtain ⟨rest, rfl⟩ := List.head?_eq_some_iff.1 hhead
  exact lt_of_isChain h hroot.1 hchain

section Order

/-- The place that a node has among the successors of another. -/
def turnAfter (g : Adjacency α) (node : Nat) : Nat → Nat := fun next => (g.successors node).idxOf next

/-- Where two paths part, the first takes the earlier turn; the turns at the first node are given. -/
def Precedes (g : Adjacency α) : (Nat → Nat) → List Nat → List Nat → Prop
  | turn, i :: path, j :: other =>
    turn i < turn j ∨ i = j ∧ g.Precedes (g.turnAfter i) path other
  | _, _, _ => False

/-- Two paths continue the same one, latest node first, and the first does so by an earlier turn. -/
def PrecedesFrom (g : Adjacency α) (path : List Nat) (turn : Nat → Nat) (p q : List Nat) : Prop :=
  ∃ rest rest', p = path.reverse ++ rest ∧ q = path.reverse ++ rest' ∧ g.Precedes turn rest rest'

theorem PrecedesFrom.of_cons {path p q : List Nat} {node : Nat} {turn : Nat → Nat}
    (h : g.PrecedesFrom (node :: path) (g.turnAfter node) p q) : g.PrecedesFrom path turn p q := by
  obtain ⟨rest, rest', rfl, rfl, hrest⟩ := h
  exact ⟨node :: rest, node :: rest', by simp, by simp, .inr ⟨rfl, hrest⟩⟩

theorem pairwise_idxOf_lt {β : Type} [DecidableEq β] {items : List β} (h : items.Nodup) :
    items.Pairwise fun a b => items.idxOf a < items.idxOf b := by
  refine List.pairwise_iff_getElem.2 fun i j hi hj hij => ?_
  rwa [h.idxOf_getElem i hi, h.idxOf_getElem j hj]

/-- Paths by way of nodes in order are in order if the paths through each node are. -/
theorem pairwise_flatMap_pathsThrough {depth : Nat} {path nodes : List Nat} {turn : Nat → Nat}
    (hnodes : nodes.Pairwise fun i j => turn i < turn j) (hnew : ∀ i ∈ nodes, (i :: path).Nodup)
    (h : ∀ i ∈ nodes, (g.pathsThrough depth path i).Pairwise
      (g.PrecedesFrom (i :: path) (g.turnAfter i))) :
    (nodes.flatMap (g.pathsThrough depth path)).Pairwise (g.PrecedesFrom path turn) := by
  refine List.pairwise_flatMap.2 ⟨fun i hi => (h i hi).imp .of_cons, ?_⟩
  refine hnodes.imp_of_mem fun {i j} hi hj hlt p hp q hq => ?_
  obtain ⟨rest, rfl, -⟩ := (mem_pathsThrough_iff (hnew i hi)).1 hp
  obtain ⟨rest', rfl, -⟩ := (mem_pathsThrough_iff (hnew j hj)).1 hq
  exact ⟨i :: rest, j :: rest', by simp, by simp, .inl hlt⟩

theorem pairwise_pathsThrough (h : g.Indexed) (depth : Nat) {path : List Nat} {node : Nat}
    (hn : (node :: path).Nodup) : (g.pathsThrough depth path node).Pairwise
      (g.PrecedesFrom (node :: path) (g.turnAfter node)) := by
  induction depth generalizing path node with
  | zero => exact .nil
  | succ depth ih =>
    unfold pathsThrough
    split
    · exact List.pairwise_singleton _ _
    · have hnew : ∀ i ∈ g.onward path node, (i :: node :: path).Nodup := fun i hi =>
        List.nodup_cons.2 ⟨(mem_onward.1 hi).2, hn⟩
      exact pairwise_flatMap_pathsThrough
        ((pairwise_idxOf_lt (h.successors_nodup node)).filter _) hnew fun i hi => ih (hnew i hi)

/-- The paths come by their roots, and by the turns they take from there. -/
theorem pairwise_paths (h : g.Indexed) : g.paths.Pairwise (g.Precedes id) := by
  have hpairs : g.paths.Pairwise (g.PrecedesFrom [] id) :=
    pairwise_flatMap_pathsThrough (List.pairwise_lt_range.filter _)
      (fun i _ => List.nodup_singleton i)
      fun i _ => pairwise_pathsThrough h g.size (List.nodup_singleton i)
  refine hpairs.imp fun {p q} hpq => ?_
  obtain ⟨rest, rest', rfl, rfl, hrest⟩ := hpq
  exact hrest

end Order

section Few

/-- Gathering asks no source for more than is still wanted, and misses nothing. -/
theorem gather_eq_take {β γ : Type} (items : Nat → β → List γ) (all : β → List γ)
    (h : ∀ limit source, limit ≠ 0 → items limit source = (all source).take limit) (limit : Nat)
    (sources : List β) : gather items limit sources = (sources.flatMap all).take limit := by
  induction sources generalizing limit with
  | nil => simp [gather]
  | cons source sources ih =>
    unfold gather
    split
    · rename_i hzero
      rw [hzero, List.take_zero]
    · rename_i hpos
      simp only [ih, h limit source hpos]
      rw [List.flatMap_cons, List.take_append, List.length_take]
      congr 2
      omega

theorem firstPathsThrough_eq_take {depth : Nat} {path : List Nat} {limit node : Nat}
    (hl : limit ≠ 0) : g.firstPathsThrough depth path limit node =
      (g.pathsThrough depth path node).take limit := by
  induction depth generalizing path limit node with
  | zero => simp [firstPathsThrough, pathsThrough]
  | succ depth ih =>
    unfold firstPathsThrough pathsThrough
    split
    · rw [List.take_of_length_le (by simpa using Nat.one_le_iff_ne_zero.2 hl)]
    · exact gather_eq_take (g.firstPathsThrough depth (node :: path)) _ (fun _ _ hl => ih hl) limit _

theorem firstPaths_eq_take (g : Adjacency α) (limit : Nat) :
    g.firstPaths limit = g.paths.take limit :=
  gather_eq_take (g.firstPathsThrough g.size []) _ (fun _ _ hl => firstPathsThrough_eq_take hl)
    limit _

end Few

section Acyclic
variable (h : g.Indexed) (ha : g.Acyclic)
include h ha

theorem idxOf_postOrder_of_stepsTo (i j : Nat) (hij : StepsTo g.successors i j) :
    g.postOrder.idxOf i < g.postOrder.idxOf j ∧ g.postOrder.idxOf j < g.postOrder.length :=
  ⟨idxOf_postOrder_lt h ha hij,
    List.idxOf_lt_length_of_mem ((mem_postOrder_iff h).2 (h.successor_lt hij))⟩

theorem isPath_of_endToEnd {path : List Nat} (hw : EndToEnd (StepsTo g.successors) path) {i : Nat}
    (hi : i ∈ path) (hlt : i < g.size) : g.IsPath path where
  root := by
    obtain ⟨root, hroot, hlt⟩ := exists_head_of_mem
      (fun a b hab => h.predecessor_lt (h.mirror.1 hab)) hw.chain hi hlt
    refine ⟨root, hroot, hlt, List.eq_nil_iff_forall_not_mem.2 fun j hj => ?_⟩
    exact hw.first root hroot j (h.mirror.2 hj)
  chain := hw.chain
  nodup := nodup_of_isChain (idxOf_postOrder_of_stepsTo h ha) hw.chain
  out i hi := List.eq_nil_iff_forall_not_mem.2 (hw.last i hi)

theorem exists_path_of_lt {i : Nat} (hi : i < g.size) : ∃ path, g.IsPath path ∧ i ∈ path := by
  obtain ⟨path, hw, hmem⟩ := exists_endToEnd_of_mem (idxOf_postOrder_of_stepsTo h ha) i
  exact ⟨path, isPath_of_endToEnd h ha hw hmem hi, hmem⟩

theorem exists_path_of_step {i j : Nat} (hij : j ∈ g.successors i) :
    ∃ path, g.IsPath path ∧ [i, j] <:+: path := by
  have hstep : StepsTo g.successors i j := hij
  obtain ⟨path, hw, hpart⟩ := exists_endToEnd_of_step (idxOf_postOrder_of_stepsTo h ha) hstep
  exact ⟨path, isPath_of_endToEnd h ha hw (hpart.subset List.mem_cons_self)
    (h.predecessor_lt (h.mirror.1 hij)), hpart⟩

end Acyclic

section Enumeration
variable [DecidableEq α]

/-- Whatever the edges are, the enumeration has every path once and nothing else, in the order of
roots and then of the turns at which paths part, and its first items can be had without the others.
Without cycles no place is repeated anyway, and the paths visit every place and every link. -/
theorem paths_are_exact {g : Adjacency α} {ids : List α} {edges : List (α × α)}
    (hg : g = ofEdges ids edges) :
    (∀ path, path ∈ g.paths ↔ g.IsPath path) ∧ g.paths.Nodup ∧ g.paths.Pairwise (g.Precedes id) ∧
    (∀ limit, g.firstPaths limit = g.paths.take limit) ∧
    (g.Acyclic →
      (∀ path, path ∈ g.paths ↔ (∃ i ∈ path.head?, i < g.size ∧ g.predecessors i = []) ∧
        path.IsChain (StepsTo g.successors) ∧ g.EndsOut path) ∧
      (∀ i < g.size, ∃ path ∈ g.paths, i ∈ path) ∧
      ∀ i j, j ∈ g.successors i → ∃ path ∈ g.paths, [i, j] <:+: path) := by
  have h : g.Indexed := hg ▸ indexed_ofEdges ids edges
  have hpaths : ∀ path, path ∈ g.paths ↔ g.IsPath path := fun _ => mem_paths_iff h
  refine ⟨hpaths, nodup_paths h, pairwise_paths h, firstPaths_eq_take g, fun ha => ⟨?_, ?_, ?_⟩⟩
  · intro path
    rw [hpaths]
    constructor
    · rintro ⟨hroot, hchain, -, hout⟩
      exact ⟨hroot, hchain, hout⟩
    · rintro ⟨hroot, hchain, hout⟩
      exact ⟨hroot, hchain, nodup_of_isChain (idxOf_postOrder_of_stepsTo h ha) hchain, hout⟩
  · intro i hi
    obtain ⟨path, hpath, hmem⟩ := exists_path_of_lt h ha hi
    exact ⟨path, (hpaths path).2 hpath, hmem⟩
  · intro i j hij
    obtain ⟨path, hpath, hpart⟩ := exists_path_of_step h ha hij
    exact ⟨path, (hpaths path).2 hpath, hpart⟩

theorem square_paths : square.Acyclic ∧ square.paths = [[3, 1, 0], [3, 2, 0]] ∧
    square.firstPaths 1 = [[3, 1, 0]] ∧ square.Precedes id [3, 1, 0] [3, 2, 0] ∧
    1 < square.size ∧ (∃ path ∈ square.paths, 1 ∈ path) ∧
    0 ∈ square.successors 2 ∧ ∃ path ∈ square.paths, [2, 0] <:+: path := by
  have hpaths : square.paths = [[3, 1, 0], [3, 2, 0]] := by decide +kernel
  have hs : 1 < square.size := by decide +kernel
  have hlink : 0 ∈ square.successors 2 := by decide +kernel
  obtain ⟨-, -, hprecedes, -, hacyclic⟩ := paths_are_exact (g := square) rfl
  obtain ⟨-, hplaces, hlinks⟩ := hacyclic square_acyclic
  rw [hpaths] at hprecedes
  exact ⟨square_acyclic, hpaths, by decide +kernel, by simpa using hprecedes, hs, hplaces 1 hs, hlink,
    hlinks 2 0 hlink⟩

end Enumeration

end TypedFlow.Adjacency
