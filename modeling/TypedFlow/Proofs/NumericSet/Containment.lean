import TypedFlow.Proofs.NumericSet.Canonical

/-!
# Containment of canonical sets

A canonical set contains another exactly if it has all its members. Where an interval of the second
sticks out of the one of the first that shares a number with it, the gap behind that end has a
number that is in neither part of the first.
-/
namespace TypedFlow

section Nearest
variable {α : Type*} [LinearOrder α]

/-- Something above `c`, at most `e`, that passes nothing of a list that is above `c`. -/
theorem exists_least {c e : α} (h : c < e) (values : List α) :
    ∃ d, c < d ∧ d ≤ e ∧ ∀ x ∈ values, c < x → d ≤ x := by
  induction values with
  | nil => exact ⟨e, h, le_rfl, by simp⟩
  | cons y values ih =>
    obtain ⟨d, hcd, hde, hd⟩ := ih
    by_cases hy : c < y
    · refine ⟨min d y, lt_min hcd hy, min_le_of_left_le hde, fun x hx hcx => ?_⟩
      rcases List.mem_cons.1 hx with rfl | hx
      · exact min_le_right d x
      · exact min_le_of_left_le (hd x hx hcx)
    · refine ⟨d, hcd, hde, fun x hx hcx => ?_⟩
      rcases List.mem_cons.1 hx with rfl | hx
      · exact absurd hcx hy
      · exact hd x hx hcx

theorem exists_greatest {c e : α} (h : e < c) (values : List α) :
    ∃ d, d < c ∧ e ≤ d ∧ ∀ x ∈ values, x < c → x ≤ d :=
  @exists_least αᵒᵈ _ c e h values

end Nearest

theorem eq_or_of_pairwise {α : Type*} {R : α → α → Prop} {values : List α}
    (h : values.Pairwise R) {x y : α} (hx : x ∈ values) (hy : y ∈ values) :
    x = y ∨ R x y ∨ R y x := by
  by_cases heq : x = y
  · exact .inl heq
  · have : Std.Symm fun x y => R x y ∨ R y x := ⟨fun _ _ => Or.symm⟩
    have hpairs : values.Pairwise fun x y => R x y ∨ R y x := h.imp .inl
    exact .inr (hpairs.forall hx hy heq)

theorem Interval.contains_of_ends {i j : Interval} (hi : i.isEmpty = false)
    (hj : j.isEmpty = false) (hl : ∀ x, j.lower.Below x → i.lower.Below x)
    (hu : ∀ x, j.upper.Above x → i.upper.Above x) : i.contains j = true := by
  have hci := clean_of_isEmpty hi
  have hcj := clean_of_isEmpty hj
  simp only [contains]
  rw [Bool.and_eq_true, Bound.lowerLE_iff hci.lower hcj.lower,
    Bound.upperGE_iff hci.upper hcj.upper]
  constructor
  · by_contra hout
    obtain ⟨x, hjx, hxi, -⟩ := Cut.exists_between (Bound.bot_le_lowerCut hcj.lower)
      (not_le.1 hout) ((lt_of_isEmpty hi).le.trans (Bound.upperCut_le_top hci.upper))
    have hbelow := hl x ((Bound.below_iff hcj.lower x).2 hjx)
    exact absurd ((Bound.below_iff hci.lower x).1 hbelow) hxi.not_ge
  · by_contra hout
    obtain ⟨x, hix, hxj, -⟩ := Cut.exists_between
      ((Bound.bot_le_lowerCut hci.lower).trans (lt_of_isEmpty hi).le) (not_le.1 hout)
      (Bound.upperCut_le_top hcj.upper)
    have habove := hu x ((Bound.above_iff hcj.upper x).2 hxj)
    exact absurd ((Bound.above_iff hci.upper x).1 habove) hix.not_gt

namespace NumericSet

open TypedFlow.Interval (Integral Fractional Apart Spaced)

variable {s a b : NumericSet} {i j r : Interval} {x y : ℝ}

section Reals
variable (hs : s.Tight) (hr : r.isEmpty = false) (hall : ∀ x, r.Mem x → s.Mem x)
  (hi : i ∈ s.reals) (hx : r.Mem x) (hix : i.Mem x)
include hs hr hall hi hx hix

theorem upperCut_le_of_cover : r.upper.upperCut ≤ i.upper.upperCut := by
  have hcr := Interval.clean_of_isEmpty hr
  have hci := Interval.clean_of_isEmpty (hs.fractional i hi).nonempty
  obtain ⟨hrl, -⟩ := (Interval.mem_iff hcr).1 hx
  obtain ⟨hil, hiu⟩ := (Interval.mem_iff hci).1 hix
  by_contra hout
  -- a number behind the upper end of `i` and before whatever comes next
  obtain ⟨d, hid, hdr, hd⟩ := exists_least (not_le.1 hout) (s.reals.map (·.lower.lowerCut))
  obtain ⟨y, hiy, hyd, hy⟩ := Cut.exists_between
    (((Bound.bot_le_lowerCut hci.lower).trans hil).trans hiu.le) hid
    (hdr.trans (Bound.upperCut_le_top hcr.upper))
  have hry : r.Mem y := (Interval.mem_iff hcr).2
    ⟨(hrl.trans hiu.le).trans hiy, hyd.trans_le hdr⟩
  rcases hall y hry with ⟨j, hj, hjy⟩ | hinteger
  · have hcj := Interval.clean_of_isEmpty (hs.fractional j hj).nonempty
    obtain ⟨hjl, hju⟩ := (Interval.mem_iff hcj).1 hjy
    rcases eq_or_of_pairwise hs.apart hi hj with rfl | hapart | hapart
    · exact absurd hju hiy.not_gt
    · exact absurd hyd ((hd _ (List.mem_map_of_mem hj) hapart).trans hjl).not_gt
    · exact absurd ((hju.trans hapart).trans_le (hil.trans hiu.le)) hiy.not_gt
  · have hz := hinteger
    obtain ⟨z, rfl, -⟩ := hz
    rcases hy with hy | ⟨hend, -⟩
    · exact hy.ne_int z rfl
    · have hpair := Prod.ext_iff.1 (toLex.injective hend)
      exact (hs.shut i hi).2 z hpair.2 hpair.1 hinteger

theorem le_lowerCut_of_cover : i.lower.lowerCut ≤ r.lower.lowerCut := by
  have hcr := Interval.clean_of_isEmpty hr
  have hci := Interval.clean_of_isEmpty (hs.fractional i hi).nonempty
  obtain ⟨-, hru⟩ := (Interval.mem_iff hcr).1 hx
  obtain ⟨hil, hiu⟩ := (Interval.mem_iff hci).1 hix
  by_contra hout
  -- a number before the lower end of `i` and behind whatever comes before
  obtain ⟨d, hdi, hrd, hd⟩ := exists_greatest (not_le.1 hout) (s.reals.map (·.upper.upperCut))
  obtain ⟨y, hdy, hyi, hy⟩ := Cut.exists_between
    ((Bound.bot_le_lowerCut hcr.lower).trans hrd) hdi
    ((hil.trans hiu.le).trans (Bound.upperCut_le_top hci.upper))
  have hry : r.Mem y := (Interval.mem_iff hcr).2 ⟨hrd.trans hdy, (hyi.trans_le hil).trans hru⟩
  rcases hall y hry with ⟨j, hj, hjy⟩ | hinteger
  · have hcj := Interval.clean_of_isEmpty (hs.fractional j hj).nonempty
    obtain ⟨hjl, hju⟩ := (Interval.mem_iff hcj).1 hjy
    rcases eq_or_of_pairwise hs.apart hi hj with rfl | hapart | hapart
    · exact absurd hyi hjl.not_gt
    · exact absurd ((hyi.trans_le (hil.trans hiu.le)).trans hapart) hjl.not_gt
    · exact absurd hju ((hd _ (List.mem_map_of_mem hj) hapart).trans hdy).not_gt
  · have hz := hinteger
    obtain ⟨z, rfl, -⟩ := hz
    rcases hy with hy | ⟨-, hend⟩
    · exact hy.ne_int z rfl
    · have hpair := Prod.ext_iff.1 (toLex.injective hend)
      exact (hs.shut i hi).1 z (by simpa using hpair.2) hpair.1 hinteger

end Reals

/-- An interval with all its numbers in a canonical set lies within one of its real intervals, as
soon as one of the numbers is not an integer. -/
theorem exists_cover (hs : s.Tight) (hr : r.Fractional)
    (hall : ∀ x, r.Mem x → s.Mem x) : ∃ i ∈ s.reals, i.contains r = true := by
  obtain ⟨x, hx, hne⟩ := hr
  have hrne := Interval.isEmpty_of_mem hx
  rcases hall x hx with ⟨i, hi, hix⟩ | ⟨z, hz, -⟩
  · refine ⟨i, hi, ?_⟩
    simp only [Interval.contains]
    rw [Bool.and_eq_true, Bound.lowerLE_iff hix.clean.lower hx.clean.lower,
      Bound.upperGE_iff hix.clean.upper hx.clean.upper]
    exact ⟨le_lowerCut_of_cover hs hrne hall hi hx hix, upperCut_le_of_cover hs hrne hall hi hx hix⟩
  · exact absurd hz (hne z)

section Integers
variable {k p : Interval} {z w : ℤ}

/-- Integers of different intervals are not next to each other. -/
theorem eq_of_near (hs : s.integers.Pairwise Spaced) (hk : k ∈ s.integers) (hj : j ∈ s.integers)
    (hz : k.Mem z) (hw : j.Mem w) (hzw : z ≤ w + 1) (hwz : w ≤ z + 1) : k = j := by
  rcases eq_or_of_pairwise hs hk hj with heq | ⟨y, hky, hjy⟩ | ⟨y, hjy, hky⟩
  · exact heq
  · have hzy : z < y := not_le.1 fun hle => hky (hz.2.mono (Int.cast_le.2 hle))
    have hyw : y < w := not_le.1 fun hle => hjy (hw.1.mono (Int.cast_le.2 hle))
    omega
  · have hwy : w < y := not_le.1 fun hle => hjy (hw.2.mono (Int.cast_le.2 hle))
    have hyz : y < z := not_le.1 fun hle => hky (hz.1.mono (Int.cast_le.2 hle))
    omega

theorem mem_of_cover_integers (hs : s.integers.Pairwise Spaced)
    (hall : ∀ z : ℤ, p.Mem z → ∃ k ∈ s.integers, k.Mem z) (hk : k ∈ s.integers) (hw : p.Mem w)
    (hkw : k.Mem w) (hz : p.Mem z) : k.Mem z := by
  -- one step at a time from `w` to `z`, all of which is in `p`
  have hstep : ∀ {y y' : ℤ}, p.Mem y' → y ≤ y' + 1 → y' ≤ y + 1 → k.Mem y → k.Mem y' := by
    intro y y' hy' hle hle' hky
    obtain ⟨j, hj, hjy⟩ := hall y' hy'
    rwa [eq_of_near hs hk hj hky hjy hle hle']
  rcases le_total w z with hle | hle
  · induction z, hle using Int.leInduction with
    | base => exact hkw
    | succ y hwy ih =>
      have hy : p.Mem y := ⟨hw.1.mono (Int.cast_le.2 hwy), hz.2.mono (by simp)⟩
      exact hstep hz (by omega) le_rfl (ih hy)
  · induction z, hle using Int.leInductionDown with
    | base => exact hkw
    | pred y hyw ih =>
      have hy : p.Mem y := ⟨hz.1.mono (by simp), hw.2.mono (Int.cast_le.2 hyw)⟩
      exact hstep hz (by omega) (by omega) (ih hy)

/-- An integer interval with all its integers in another lies within it. -/
theorem contains_of_integers (hk : k.isEmpty = false) (hp : p.Integral)
    (h : ∀ z : ℤ, p.Mem z → k.Mem z) : k.contains p = true := by
  apply Interval.contains_of_ends hk hp.nonempty
  · intro x hx
    obtain ⟨z, hz, hzx⟩ := hp.exists_le hx
    exact (h z hz).1.mono hzx
  · intro x hx
    obtain ⟨z, hz, hxz⟩ := hp.exists_ge hx
    exact (h z hz).2.mono hxz

/-- Integers in a row that are all listed are listed by one interval. -/
theorem exists_cover_integers (hs : s.Tight) (hp : p.Integral)
    (hall : ∀ z : ℤ, p.Mem z → ∃ k ∈ s.integers, k.Mem z) :
    ∃ k ∈ s.integers, k.contains p = true := by
  obtain ⟨w, hw⟩ := hp.exists_int
  obtain ⟨k, hk, hkw⟩ := hall w hw
  exact ⟨k, hk, contains_of_integers (hs.integral k hk).nonempty hp fun z hz =>
    mem_of_cover_integers hs.spaced hall hk hw hkw hz⟩

end Integers

/-- Only of the containing set no two real intervals may touch. -/
theorem contains_of_members (ha : a.Tight) (hsa : a.Sound) (hb : ∀ i ∈ b.reals, i.Fractional)
    (hsb : b.Sound) (h : ∀ x, b.Mem x → a.Mem x) : a.contains b = true := by
  simp only [contains]
  rw [Bool.and_eq_true, List.all_eq_true, List.all_eq_true]
  constructor
  · intro r hr
    rw [List.any_eq_true]
    exact exists_cover ha (hb r hr) fun x hx => h x (.inl ⟨r, hr, hx⟩)
  · intro i hi
    rw [List.all_eq_true]
    intro p hp
    have hlists := lists_uncovered_one hsa.reals (hsb.integers i hi)
    rw [List.any_eq_true]
    apply exists_cover_integers ha (hlists.good p hp)
    intro z hz
    obtain ⟨hiz, hnot⟩ := (hlists.mem z).1 ⟨p, hp, hz⟩
    rcases h z (.inr ⟨z, rfl, i, hi, hiz⟩) with hreal | ⟨w, hzw, hw⟩
    · exact absurd hreal hnot
    · rwa [← Int.cast_inj.1 hzw] at hw

/-- Containment is decided exactly. -/
theorem contains_iff (ha : a.Canonical) (hb : b.Canonical) :
    a.contains b = true ↔ ∀ x, b.Mem x → a.Mem x :=
  ⟨fun h _ hx => mem_of_contains ha.toSound hb.toSound h hx,
    contains_of_members ha.toTight ha.toSound hb.fractional hb.toSound⟩

section Equality
variable {xs ys : List Interval}

/-- The two cuts of an interval. -/
noncomputable def ends (i : Interval) : Cut × Cut := (i.lower.lowerCut, i.upper.upperCut)

theorem beq_iff_ends (hi : i.Clean) (hj : j.Clean) : (i == j) = true ↔ ends i = ends j := by
  have hlower : (i.lower.value == j.lower.value && i.lower.inclusive == j.lower.inclusive) = true ↔
      i.lower.lowerCut = j.lower.lowerCut := by
    rw [Bool.and_eq_true, Number.beq_iff hi.lower hj.lower, beq_iff_eq, Bound.lowerCut,
      Bound.lowerCut, toLex_inj, Prod.mk.injEq, Bool.not_inj_iff]
  have hupper : (i.upper.value == j.upper.value && i.upper.inclusive == j.upper.inclusive) = true ↔
      i.upper.upperCut = j.upper.upperCut := by
    rw [Bool.and_eq_true, Number.beq_iff hi.upper hj.upper, beq_iff_eq, Bound.upperCut,
      Bound.upperCut, toLex_inj, Prod.mk.injEq]
  exact Bool.and_eq_true_iff.trans ((and_congr hlower hupper).trans Prod.mk_inj.symm)

theorem beq_iff_map_ends (hx : ∀ i ∈ xs, i.Clean) (hy : ∀ i ∈ ys, i.Clean) :
    (xs == ys) = true ↔ xs.map ends = ys.map ends := by
  induction xs generalizing ys with
  | nil => cases ys <;> simp
  | cons i xs ih =>
    cases ys with
    | nil => simp
    | cons j ys =>
      have hhead := beq_iff_ends (hx i (by simp)) (hy j (by simp))
      have htail := ih (fun k hk => hx k (List.mem_cons_of_mem i hk))
        fun k hk => hy k (List.mem_cons_of_mem j hk)
      rw [List.cons_beq_cons, Bool.and_eq_true, hhead, htail, List.map_cons, List.map_cons,
        List.cons.injEq]

theorem exists_mem_of_ends (hx : ∀ i ∈ xs, i.Clean) (hy : ∀ i ∈ ys, i.Clean)
    (h : xs.map ends = ys.map ends) (hmem : ∃ i ∈ xs, i.Mem x) : ∃ j ∈ ys, j.Mem x := by
  obtain ⟨i, hi, hix⟩ := hmem
  have hends : ends i ∈ ys.map ends := h ▸ List.mem_map_of_mem hi
  obtain ⟨j, hj, heq⟩ := List.mem_map.1 hends
  obtain ⟨hl, hu⟩ := Prod.mk_inj.1 heq
  refine ⟨j, hj, (Interval.mem_iff (hy j hj)).2 ?_⟩
  rw [hl, hu]
  exact (Interval.mem_iff (hx i hi)).1 hix

theorem ends_eq_of_contains (hi : i.Clean) (hj : j.Clean) (hij : i.contains j = true)
    (hji : j.contains i = true) : ends i = ends j := by
  simp only [Interval.contains] at hij hji
  rw [Bool.and_eq_true, Bound.lowerLE_iff hi.lower hj.lower, Bound.upperGE_iff hi.upper hj.upper]
    at hij
  rw [Bool.and_eq_true, Bound.lowerLE_iff hj.lower hi.lower, Bound.upperGE_iff hj.upper hi.upper]
    at hji
  exact Prod.ext (hij.1.antisymm hji.1) (hji.2.antisymm hij.2)

theorem apart_of_spaced (hi : i.Clean) (hj : j.Clean) (h : i.Spaced j) : i.Apart j := by
  obtain ⟨z, hiz, hjz⟩ := h
  rw [Bound.above_iff hi.upper, not_lt] at hiz
  rw [Bound.below_iff hj.lower, not_le] at hjz
  exact hiz.trans_lt hjz

theorem eq_of_common (hxs : xs.Pairwise Apart) (hi : i ∈ xs) (hj : j ∈ xs) (hix : i.Mem x)
    (hjx : j.Mem x) : i = j := by
  obtain ⟨hil, hiu⟩ := (Interval.mem_iff hix.clean).1 hix
  obtain ⟨hjl, hju⟩ := (Interval.mem_iff hjx.clean).1 hjx
  rcases eq_or_of_pairwise hxs hi hj with heq | hapart | hapart
  · exact heq
  · exact absurd (hiu.trans hapart) hjl.not_gt
  · exact absurd (hju.trans hapart) hil.not_gt

section Apart
variable (hx : ∀ i ∈ xs, i.isEmpty = false) (hxs : xs.Pairwise Apart)
include hx hxs

theorem pairwise_ends : (xs.map ends).Pairwise fun p q => p.1 < q.1 := by
  rw [List.pairwise_map]
  exact hxs.imp_of_mem fun hi _ hij => (Interval.lt_of_isEmpty (hx _ hi)).trans hij

theorem ends_mem_of_contains (hxy : ∀ i ∈ xs, ∃ j ∈ ys, j.contains i = true)
    (hyx : ∀ j ∈ ys, ∃ i ∈ xs, i.contains j = true) (hy : ∀ j ∈ ys, j.isEmpty = false)
    (hi : i ∈ xs) : ends i ∈ ys.map ends := by
  obtain ⟨j, hj, hji⟩ := hxy i hi
  obtain ⟨k, hk, hkj⟩ := hyx j hj
  obtain ⟨x, hix⟩ := Interval.exists_mem (hx i hi)
  have hci := hix.clean
  have hcj := Interval.clean_of_isEmpty (hy j hj)
  have hck := Interval.clean_of_isEmpty (hx k hk)
  have hkx := Interval.mem_of_contains hck hcj hkj (Interval.mem_of_contains hcj hci hji hix)
  obtain rfl := eq_of_common hxs hi hk hix hkx
  exact List.mem_map.2 ⟨j, hj, ends_eq_of_contains hcj hci hji hkj⟩

/-- Two lists of intervals that are apart are equal if each interval of the one lies within one of
the other. -/
theorem beq_of_apart (hy : ∀ i ∈ ys, i.isEmpty = false) (hys : ys.Pairwise Apart)
    (hxy : ∀ i ∈ xs, ∃ j ∈ ys, j.contains i = true)
    (hyx : ∀ j ∈ ys, ∃ i ∈ xs, i.contains j = true) : (xs == ys) = true := by
  have : Std.Antisymm fun p q : Cut × Cut => p.1 < q.1 := ⟨fun _ _ h h' => absurd h' h.not_gt⟩
  have : Std.Irrefl fun p q : Cut × Cut => p.1 < q.1 := ⟨fun _ => lt_irrefl _⟩
  refine (beq_iff_map_ends (fun i hi => Interval.clean_of_isEmpty (hx i hi))
    fun i hi => Interval.clean_of_isEmpty (hy i hi)).2
      ((pairwise_ends hx hxs).eq_of_mem_iff (pairwise_ends hy hys) fun p => ⟨?_, ?_⟩)
  · intro hp
    obtain ⟨i, hi, rfl⟩ := List.mem_map.1 hp
    exact ends_mem_of_contains hx hxs hxy hyx hy hi
  · intro hp
    obtain ⟨j, hj, rfl⟩ := List.mem_map.1 hp
    exact ends_mem_of_contains hy hys hyx hxy hx hj

end Apart

section Tight
variable {s t : NumericSet} (hs : s.Tight) (ht : t.Tight) (h : ∀ x, s.Mem x → t.Mem x)
  (h' : ∀ x, t.Mem x → s.Mem x)

theorem Tight.clean (hs : s.Tight) : (∀ i ∈ s.reals, i.Clean) ∧ ∀ i ∈ s.integers, i.Clean :=
  ⟨fun i hi => Interval.clean_of_isEmpty (hs.fractional i hi).nonempty,
    fun i hi => Interval.clean_of_isEmpty (hs.integral i hi).nonempty⟩

theorem Tight.apart_integers (hs : s.Tight) : s.integers.Pairwise Apart :=
  hs.spaced.imp_of_mem fun hi hj => apart_of_spaced (hs.clean.2 _ hi) (hs.clean.2 _ hj)

include hs ht h in
theorem exists_cover_reals : ∀ i ∈ s.reals, ∃ j ∈ t.reals, j.contains i = true :=
  fun i hi => exists_cover ht (hs.fractional i hi) fun x hx => h x (.inl ⟨i, hi, hx⟩)

include hs ht h h' in
/-- What one set lists as an integer is not among the real intervals of the other either. -/
theorem exists_cover_listed : ∀ i ∈ s.integers, ∃ j ∈ t.integers, j.contains i = true := by
  intro i hi
  apply exists_cover_integers ht (hs.integral i hi)
  intro z hz
  rcases h z (.inr ⟨z, rfl, i, hi, hz⟩) with ⟨r, hr, hrz⟩ | ⟨w, hzw, hw⟩
  · obtain ⟨q, hq, hcontains⟩ := exists_cover_reals ht hs h' r hr
    have hqz := Interval.mem_of_contains (hs.clean.1 q hq) hrz.clean hcontains hrz
    exact absurd ⟨q, hq, hqz⟩ (hs.disjoint i hi z hz)
  · rwa [← Int.cast_inj.1 hzw] at hw

include hs ht h h' in
theorem beq_of_members : (s == t) = true :=
  Bool.and_eq_true_iff.2
    ⟨beq_of_apart (fun i hi => (hs.fractional i hi).nonempty) hs.apart
      (fun i hi => (ht.fractional i hi).nonempty) ht.apart (exists_cover_reals hs ht h)
      (exists_cover_reals ht hs h'),
    beq_of_apart (fun i hi => (hs.integral i hi).nonempty) hs.apart_integers
      (fun i hi => (ht.integral i hi).nonempty) ht.apart_integers (exists_cover_listed hs ht h h')
      (exists_cover_listed ht hs h' h)⟩

include hs ht in
theorem mem_of_ends (hreals : s.reals.map ends = t.reals.map ends)
    (hintegers : s.integers.map ends = t.integers.map ends) (hx : s.Mem x) : t.Mem x := by
  rcases hx with hx | ⟨z, rfl, hz⟩
  · exact .inl (exists_mem_of_ends hs.clean.1 ht.clean.1 hreals hx)
  · exact .inr ⟨z, rfl, exists_mem_of_ends hs.clean.2 ht.clean.2 hintegers hz⟩

include hs ht in
/-- Equality is decided exactly. -/
theorem beq_iff : (s == t) = true ↔ ∀ x, s.Mem x ↔ t.Mem x := by
  refine ⟨fun h x => ?_, fun h => beq_of_members hs ht (fun x => (h x).1) fun x => (h x).2⟩
  obtain ⟨hreals, hintegers⟩ := Bool.and_eq_true_iff.1 h
  have hreals := (beq_iff_map_ends hs.clean.1 ht.clean.1).1 hreals
  have hintegers := (beq_iff_map_ends hs.clean.2 ht.clean.2).1 hintegers
  exact ⟨mem_of_ends hs ht hreals hintegers, mem_of_ends ht hs hreals.symm hintegers.symm⟩

end Tight

end Equality

theorem isEmpty_iff (hs : s.Sound) : s.isEmpty = true ↔ ∀ x, ¬ s.Mem x := by
  refine ⟨fun h x => not_mem_of_isEmpty h, fun h => ?_⟩
  by_contra hne
  obtain ⟨x, hx⟩ := exists_mem hs (by simpa using hne)
  exact h x hx

theorem beq_unbounded (hi : i.Clean) (h : i.contains .unbounded = true) :
    (i == .unbounded) = true := by
  have hlower : Bound.unboundedBelow.lowerCut = toLex (⊥, true) :=
    congrArg (fun p => toLex (p, true)) Number.line_neg_overflow
  have hupper : Bound.unboundedAbove.upperCut = toLex (⊤, false) :=
    congrArg (fun p => toLex (p, false)) Number.line_overflow
  simp only [Interval.contains, Interval.unbounded] at h
  rw [Bool.and_eq_true, Bound.lowerLE_iff hi.lower rfl, Bound.upperGE_iff hi.upper rfl, hlower,
    hupper] at h
  apply (beq_iff_ends hi ⟨rfl, rfl⟩).2
  exact Prod.ext ((h.1.antisymm (Bound.bot_le_lowerCut hi.lower)).trans hlower.symm)
    (((Bound.upperCut_le_top hi.upper).antisymm h.2).trans hupper.symm)

/-- A tight set with all numbers is the one unbounded interval. -/
theorem isAllReals_of_members (hs : s.Tight) (h : ∀ x, s.Mem x) : s.isAllReals = true := by
  obtain ⟨i, hi, hcontains⟩ := exists_cover hs
    ⟨√2, Interval.mem_unbounded _, fun z => irrational_sqrt_two.ne_int z⟩ (fun x _ => h x)
  have hci := Interval.clean_of_isEmpty (hs.fractional i hi).nonempty
  have hall := fun x => Interval.mem_of_contains hci ⟨rfl, rfl⟩ hcontains (Interval.mem_unbounded x)
  have heq : ∀ j ∈ s.reals, j = i := by
    intro j hj
    obtain ⟨x, hx⟩ := Interval.exists_mem (hs.fractional j hj).nonempty
    exact eq_of_common hs.apart hj hi hx (hall x)
  have hbeq := beq_unbounded hci hcontains
  have hpairs := hs.apart
  unfold isAllReals
  cases hreals : s.reals with
  | nil =>
    rw [hreals] at hi
    cases hi
  | cons j rest =>
    rw [hreals] at heq hpairs
    cases rest with
    | nil =>
      rw [heq j (by simp)]
      exact hbeq
    | cons k rest =>
      have hjk : j.Apart k := (List.pairwise_cons.1 hpairs).1 k (by simp)
      rw [heq j (by simp), heq k (by simp)] at hjk
      exact absurd hjk (Interval.lt_of_isEmpty (hs.fractional i hi).nonempty).not_gt

theorem isAllReals_iff (hs : s.Canonical) : s.isAllReals = true ↔ ∀ x, s.Mem x :=
  ⟨fun h _ => mem_of_isAllReals hs.toSound h, isAllReals_of_members hs.toTight⟩

end NumericSet
end TypedFlow
