import Mathlib

/-! # Sorting permutations and ranks

* `IsArgsort xs positions`: the positions of `xs` in an order that sorts it; `IsStableArgsort` breaks
  ties by position, which leaves one such order.
* `argsort_argsort`: sorting the positions again gives the rank of each position, whatever the ties of
  the first sort. With a stable one it is `stableRanks`, a count of the smaller values and of the equal
  ones in front.
* `exists_order_of_insertionSort`: a list sorted by a key is read off its stable argsort.
* `sqDistance_add_sqReversal`: for two rankings of `n` items, the squared distance of the ranks and that
  to the reversed ranks add up to a number that depends on `n` only, `n (n² - 1) / 3`. -/

namespace Chronoq.Foundations

set_option autoImplicit false

variable {α : Type*} [LinearOrder α]

structure IsArgsort (xs : List α) (positions : List ℕ) : Prop where
  perm : positions.Perm (List.range xs.length)
  sorted : positions.Pairwise fun i j => ∀ x ∈ xs[i]?, ∀ y ∈ xs[j]?, x ≤ y

structure IsStableArgsort (xs : List α) (positions : List ℕ) : Prop where
  perm : positions.Perm (List.range xs.length)
  sorted : positions.Pairwise fun i j => ∀ x ∈ xs[i]?, ∀ y ∈ xs[j]?, x < y ∨ x = y ∧ i < j

theorem IsStableArgsort.isArgsort {xs : List α} {positions : List ℕ}
    (h : IsStableArgsort xs positions) : IsArgsort xs positions where
  perm := h.perm
  sorted := h.sorted.imp fun hij x hx y hy =>
    (hij x hx y hy).elim le_of_lt fun heq => heq.1.le

/-! ## Sorting the positions again -/

theorem map_getD_range {β : Type*} (l : List β) (d : β) :
    (List.range l.length).map (fun i => l.getD i d) = l := by
  refine List.ext_getElem (by simp) fun i hi hi' => ?_
  simp [hi']

/-- Positions sorted by a permutation of the positions: the inverse permutation. -/
theorem argsort_argsort {f : ℕ → α} (hf : StrictMono f) {positions ranks : List ℕ}
    (hperm : positions.Perm (List.range positions.length))
    (hranks : IsArgsort (positions.map f) ranks) :
    ranks = (List.range positions.length).map positions.idxOf := by
  have hrange : ranks.Perm (List.range positions.length) := by
    have hranksPerm := hranks.perm
    rwa [List.length_map] at hranksPerm
  have hlt : ∀ i ∈ ranks, i < positions.length := fun i hi =>
    List.mem_range.mp (hrange.mem_iff.mp hi)
  -- read through the ranks, the positions are sorted, so they are `0, 1, ..`
  have hsorted : (ranks.map fun i => positions.getD i 0).Pairwise (· ≤ ·) := by
    rw [List.pairwise_map]
    refine List.Pairwise.imp_of_mem ?_ hranks.sorted
    intro i j hi hj hij
    have hi' := hlt i hi
    have hj' := hlt j hj
    have hle := hij (f positions[i]) (by simp [hi']) (f positions[j]) (by simp [hj'])
    rw [List.getD_eq_getElem _ _ hi', List.getD_eq_getElem _ _ hj']
    exact hf.le_iff_le.mp hle
  have hread : ranks.map (fun i => positions.getD i 0) = List.range positions.length := by
    refine List.Perm.eq_of_pairwise (fun _ _ _ _ => le_antisymm) hsorted List.pairwise_le_range ?_
    have hmapped := hrange.map fun i => positions.getD i 0
    rw [map_getD_range] at hmapped
    exact hmapped.trans hperm
  have hnodup : positions.Nodup := hperm.nodup_iff.mpr List.nodup_range
  rw [← hread, List.map_map]
  conv_lhs => rw [← List.map_id ranks]
  refine List.map_congr_left fun i hi => ?_
  rw [Function.comp_apply, List.getD_eq_getElem _ _ (hlt i hi), id]
  exact (hnodup.idxOf_getElem i (hlt i hi)).symm

/-! ## Stable ranks -/

/-- In a list ordered by an asymmetric relation, the position of an entry is the number of entries
before it. -/
theorem idxOf_eq_countP {r : ℕ → ℕ → Prop} [DecidableRel r] (hasymm : ∀ a b, r a b → ¬ r b a)
    {l : List ℕ} (h : l.Pairwise r) {k : ℕ} (hk : k ∈ l) :
    l.idxOf k = l.countP fun j => r j k := by
  induction l with
  | nil => cases hk
  | cons a l ih =>
    obtain ⟨hhead, htail⟩ := List.pairwise_cons.mp h
    by_cases hak : a = k
    · subst hak
      have hnone : (a :: l).countP (fun j => r j a) = 0 := by
        rw [List.countP_eq_zero]
        intro j hj
        rw [decide_eq_true_eq]
        rcases List.mem_cons.mp hj with rfl | hj
        · exact fun hjj => hasymm j j hjj hjj
        · exact hasymm a j (hhead j hj)
      rw [hnone, List.idxOf_cons_self]
    · have hkl : k ∈ l := (List.mem_cons.mp hk).resolve_left fun heq => hak heq.symm
      rw [List.idxOf_cons_ne _ hak, ih htail hkl, List.countP_cons_of_pos]
      exact decide_eq_true (hhead k hkl)

def stableRank (xs : List α) (i : ℕ) (x : α) : ℕ :=
  xs.countP (fun y => y < x) + (xs.take i).countP (fun y => y = x)

def stableRanks (xs : List α) : List ℕ := xs.mapIdx (stableRank xs)

omit [LinearOrder α] in
theorem countP_range_getD (p : α → Bool) (xs : List α) (d : α) :
    (List.range xs.length).countP (fun i => p (xs.getD i d)) = xs.countP p := by
  conv_rhs => rw [← map_getD_range xs d, List.countP_map]
  rfl

omit [LinearOrder α] in
theorem countP_range_getD_lt (p : α → Bool) {xs : List α} (d : α) {k : ℕ} (hk : k ≤ xs.length) :
    (List.range xs.length).countP (fun i => p (xs.getD i d) && decide (i < k)) =
      (xs.take k).countP p := by
  have htake : (xs.take k).length = k := by rw [List.length_take, Nat.min_eq_left hk]
  have hsplit : List.range xs.length =
      List.range k ++ (List.range (xs.length - k)).map (k + ·) := by
    rw [← List.range_add, Nat.add_sub_cancel' hk]
  have hbehind : ((List.range (xs.length - k)).map (k + ·)).countP
      (fun i => p (xs.getD i d) && decide (i < k)) = 0 := by
    rw [List.countP_eq_zero]
    intro i hi
    obtain ⟨j, -, rfl⟩ := List.mem_map.mp hi
    simp
  rw [hsplit, List.countP_append, hbehind, Nat.add_zero, ← countP_range_getD p (xs.take k) d, htake]
  refine List.countP_congr fun i hi => ?_
  have hik := List.mem_range.mp hi
  rw [List.getD_eq_getElem _ _ (by omega), List.getD_eq_getElem _ _ (by omega), List.getElem_take]
  simp [hik]

theorem countP_or_of_disjoint {β : Type*} {p q : β → Bool} (l : List β)
    (h : ∀ x ∈ l, p x = true → q x = false) :
    l.countP (fun x => p x || q x) = l.countP p + l.countP q := by
  induction l with
  | nil => rfl
  | cons x l ih =>
    have hx := h x (List.mem_cons_self ..)
    rw [List.countP_cons, List.countP_cons, List.countP_cons,
      ih fun y hy => h y (List.mem_cons_of_mem _ hy)]
    cases hp : p x with
    | true =>
      rw [hx hp]
      simp
      omega
    | false =>
      simp
      omega

/-- Position `i` comes before `j` in a stable sort of `xs`. -/
def SortsBefore (xs : List α) (d : α) (i j : ℕ) : Prop :=
  xs.getD i d < xs.getD j d ∨ xs.getD i d = xs.getD j d ∧ i < j

instance (xs : List α) (d : α) : DecidableRel (SortsBefore xs d) :=
  fun _ _ => inferInstanceAs (Decidable (_ ∨ _))

theorem SortsBefore.asymm {xs : List α} {d : α} (i j : ℕ) (h : SortsBefore xs d i j) :
    ¬ SortsBefore xs d j i := by
  rintro (hlt | ⟨heq, hij⟩)
  · rcases h with hlt' | ⟨heq', -⟩
    · exact hlt.asymm hlt'
    · exact hlt.ne' heq'
  · rcases h with hlt' | ⟨-, hij'⟩
    · exact hlt'.ne' heq
    · omega

theorem IsStableArgsort.idxOf_eq {xs : List α} {positions : List ℕ}
    (h : IsStableArgsort xs positions) {k : ℕ} (hk : k < xs.length) :
    positions.idxOf k = stableRank xs k xs[k] := by
  have hmem : k ∈ positions := h.perm.mem_iff.mpr (List.mem_range.mpr hk)
  have hbefore : positions.Pairwise (SortsBefore xs xs[k]) := by
    refine List.Pairwise.imp_of_mem ?_ h.sorted
    intro i j hi hj hij
    have hi' := List.mem_range.mp (h.perm.mem_iff.mp hi)
    have hj' := List.mem_range.mp (h.perm.mem_iff.mp hj)
    rw [SortsBefore, List.getD_eq_getElem _ _ hi', List.getD_eq_getElem _ _ hj']
    exact hij xs[i] (by simp [hi']) xs[j] (by simp [hj'])
  have hless := countP_range_getD (fun y => decide (y < xs[k])) xs xs[k]
  have hties := countP_range_getD_lt (fun y => decide (y = xs[k])) xs[k] hk.le
  rw [idxOf_eq_countP SortsBefore.asymm hbefore hmem, h.perm.countP_eq, stableRank, ← hless, ← hties,
    ← countP_or_of_disjoint]
  · refine List.countP_congr fun i _ => ?_
    simp [SortsBefore, hk]
  · intro i _ hlt
    rw [decide_eq_false (of_decide_eq_true hlt).ne, Bool.false_and]

/-- Ranks by two sorts, the first of them stable. -/
theorem ranks_eq_stableRanks {f : ℕ → α} (hf : StrictMono f) {xs : List α}
    {positions ranks : List ℕ} (hpositions : IsStableArgsort xs positions)
    (hranks : IsArgsort (positions.map f) ranks) : ranks = stableRanks xs := by
  have hlength : positions.length = xs.length := by
    rw [hpositions.perm.length_eq, List.length_range]
  have hperm := hpositions.perm
  rw [← hlength] at hperm
  rw [argsort_argsort hf hperm hranks, hlength]
  refine List.ext_getElem (by simp [stableRanks]) fun k hk hk' => ?_
  have hk'' : k < xs.length := by simpa using hk
  simp only [List.getElem_map, List.getElem_range, stableRanks, List.getElem_mapIdx]
  exact hpositions.idxOf_eq hk''

/-! ### The first two entries change places -/

theorem stableRanks_cons_cons (x y : α) (xs : List α) :
    stableRanks (x :: y :: xs) =
      (x :: y :: xs).countP (fun z => z < x) ::
        ((x :: y :: xs).countP (fun z => z < y) + if x = y then 1 else 0) ::
          xs.mapIdx fun i z => stableRank (x :: y :: xs) (i + 2) z := by
  rw [stableRanks, List.mapIdx_cons, List.mapIdx_cons]
  refine congrArg₂ List.cons ?_ (congrArg₂ List.cons ?_ rfl)
  · simp only [stableRank, List.take_zero, List.countP_nil, Nat.add_zero]
  · simp only [stableRank, List.take_succ_cons, List.take_zero, List.countP_singleton,
      decide_eq_true_eq]

theorem stableRank_swap (x y : α) (xs : List α) (i : ℕ) (z : α) :
    stableRank (y :: x :: xs) (i + 2) z = stableRank (x :: y :: xs) (i + 2) z := by
  have hfront : ((y :: x :: xs).take (i + 2)).Perm ((x :: y :: xs).take (i + 2)) := by
    rw [List.take_succ_cons, List.take_succ_cons, List.take_succ_cons, List.take_succ_cons]
    exact List.Perm.swap x y _
  rw [stableRank, stableRank, hfront.countP_eq, (List.Perm.swap x y xs).countP_eq]

theorem countP_lt_of_lt {x y : α} {xs : List α} (hx : x ∈ xs) (hxy : x < y) :
    xs.countP (fun z => z < x) < xs.countP (fun z => z < y) := by
  obtain ⟨rest, hperm⟩ : ∃ rest, xs.Perm (x :: rest) := ⟨xs.erase x, List.perm_cons_erase hx⟩
  have hrest : rest.countP (fun z => z < x) ≤ rest.countP (fun z => z < y) :=
    List.countP_mono_left fun z _ hz => decide_eq_true ((of_decide_eq_true hz).trans hxy)
  rw [hperm.countP_eq, hperm.countP_eq, List.countP_cons_of_neg (by simp),
    List.countP_cons_of_pos (by simpa using hxy)]
  omega

/-- Entries of a list have the same number of smaller ones only if they are equal. -/
theorem countP_lt_inj {x y : α} {xs : List α} (hx : x ∈ xs) (hy : y ∈ xs) :
    xs.countP (fun z => z < x) = xs.countP (fun z => z < y) ↔ x = y := by
  constructor
  · intro heq
    rcases lt_trichotomy x y with hlt | rfl | hgt
    · exact absurd heq (countP_lt_of_lt hx hlt).ne
    · rfl
    · exact absurd heq (countP_lt_of_lt hy hgt).ne'
  · rintro rfl
    rfl

/-! ## Stable sorting -/

/-- Insertion sort is stable: entries that are equivalent for `r` stay in an order `q` that the list was
in. -/
theorem pairwise_insertionSort_stable {β : Type*} {r q : β → β → Prop} [DecidableRel r]
    (htotal : ∀ a b, r a b ∨ r b a) (htrans : ∀ a b c, r a b → r b c → r a c) {l : List β}
    (h : l.Pairwise q) : (l.insertionSort r).Pairwise fun a b => r a b ∧ (r b a → q a b) := by
  induction l with
  | nil => exact List.Pairwise.nil
  | cons x l ih =>
    obtain ⟨hx, hl⟩ := List.pairwise_cons.mp h
    have hx' : ∀ y ∈ l.insertionSort r, q x y := fun y hy =>
      hx y ((List.mem_insertionSort r).mp hy)
    rw [List.insertionSort_cons]
    generalize l.insertionSort r = sorted at ih hx' ⊢
    have hsorted := ih hl
    clear ih
    induction sorted with
    | nil => exact List.pairwise_singleton _ x
    | cons y sorted ih =>
      obtain ⟨hy, htail⟩ := List.pairwise_cons.mp hsorted
      rw [List.orderedInsert_cons]
      split
      · next hxy =>
        refine List.pairwise_cons.mpr ⟨fun z hz => ⟨?_, fun _ => hx' z hz⟩, hsorted⟩
        rcases List.mem_cons.mp hz with rfl | hz
        · exact hxy
        · exact htrans x y z hxy (hy z hz).1
      · next hxy =>
        have hyx : r y x := (htotal x y).resolve_left hxy
        refine List.pairwise_cons.mpr ⟨fun z hz => ?_, ?_⟩
        · rcases (List.mem_orderedInsert r).mp hz with rfl | hz
          · exact ⟨hyx, fun hzy => absurd hzy hxy⟩
          · exact hy z hz
        · exact ih (fun z hz => hx' z (List.mem_cons_of_mem _ hz)) htail

/-- Sorting positions by their values gives the stable argsort. -/
theorem isStableArgsort_insertionSort (xs : List α) (d : α) :
    IsStableArgsort xs
      ((List.range xs.length).insertionSort fun i j => xs.getD i d ≤ xs.getD j d) where
  perm := List.perm_insertionSort _ _
  sorted := by
    have hstable := pairwise_insertionSort_stable (r := fun i j => xs.getD i d ≤ xs.getD j d)
      (fun i j => le_total (xs.getD i d) (xs.getD j d))
      (fun i j k => le_trans (a := xs.getD i d) (b := xs.getD j d) (c := xs.getD k d))
      (List.pairwise_lt_range (n := xs.length))
    refine hstable.imp fun hij x hx y hy => ?_
    rw [Option.mem_def] at hx hy
    simp only [List.getD_eq_getElem?_getD, hx, hy, Option.getD_some] at hij
    rcases hij.1.lt_or_eq with hlt | heq
    · exact .inl hlt
    · exact .inr ⟨heq, hij.2 heq.ge⟩

/-- A list sorted by a key is the list read off in the order of its stable argsort. -/
theorem exists_order_of_insertionSort {β : Type*} (key : β → α) (l : List β) :
    ∃ order, IsStableArgsort (l.map key) order ∧
      (l.insertionSort fun a b => key a ≤ key b).map some = order.map fun i => l[i]? := by
  cases l with
  | nil => exact ⟨[], ⟨.refl _, List.Pairwise.nil⟩, rfl⟩
  | cons b rest =>
    generalize b :: rest = l
    let order := (List.range l.length).insertionSort fun i j =>
      (l.map key).getD i (key b) ≤ (l.map key).getD j (key b)
    have horder : IsStableArgsort (l.map key) order := by
      have hstable := isStableArgsort_insertionSort (l.map key) (key b)
      rwa [List.length_map] at hstable
    have hread : l.insertionSort (fun a b => key a ≤ key b) = order.map fun i => l.getD i b := by
      have hmap := List.map_insertionSort (r := fun i j =>
        (l.map key).getD i (key b) ≤ (l.map key).getD j (key b)) (s := fun a b => key a ≤ key b)
        (fun i => l.getD i b) (List.range l.length) fun i _ j _ => by simp
      rw [map_getD_range] at hmap
      exact hmap.symm
    refine ⟨order, horder, ?_⟩
    rw [hread, List.map_map]
    refine List.map_congr_left fun i hi => ?_
    have hi' : i < l.length := by
      have hrange := horder.perm.mem_iff.mp hi
      rwa [List.mem_range, List.length_map] at hrange
    rw [Function.comp_apply, List.getD_eq_getElem _ _ hi', List.getElem?_eq_getElem hi']

/-! ## The distance of two rankings -/

/-- The sum of the squared differences of the ranks. -/
def sqDistance (ranks ranks' : List ℕ) : ℚ :=
  (List.zipWith (fun (r r' : ℕ) => ((r : ℚ) - r') ^ 2) ranks ranks').sum

/-- The squared distance to the ranks counted down from `top`. -/
def sqReversal (top : ℚ) (ranks ranks' : List ℕ) : ℚ :=
  (List.zipWith (fun (r r' : ℕ) => ((r : ℚ) + r' - top) ^ 2) ranks ranks').sum

def rankSum (ranks : List ℕ) : ℚ := (ranks.map fun (r : ℕ) => (r : ℚ)).sum

def rankSquareSum (ranks : List ℕ) : ℚ := (ranks.map fun (r : ℕ) => (r : ℚ) ^ 2).sum

theorem rankSum_range (n : ℕ) : rankSum (List.range n) = n * (n - 1) / 2 := by
  induction n with
  | zero => simp [rankSum]
  | succ n ih =>
    rw [rankSum, List.range_succ, List.map_append, List.sum_append, ← rankSum, ih]
    simp
    ring

theorem rankSquareSum_range (n : ℕ) :
    rankSquareSum (List.range n) = n * (n - 1) * (2 * n - 1) / 6 := by
  induction n with
  | zero => simp [rankSquareSum]
  | succ n ih =>
    rw [rankSquareSum, List.range_succ, List.map_append, List.sum_append, ← rankSquareSum, ih]
    simp
    ring

/-- `(r - r')² + (r + r' - top)²` has no product of the two ranks. -/
theorem sqDistance_add_sqReversal_eq (top : ℚ) {ranks ranks' : List ℕ}
    (h : ranks.length = ranks'.length) :
    sqDistance ranks ranks' + sqReversal top ranks ranks' =
      2 * (rankSquareSum ranks + rankSquareSum ranks') - 2 * top * (rankSum ranks + rankSum ranks') +
        ranks.length * top ^ 2 := by
  induction ranks generalizing ranks' with
  | nil =>
    have hnil := List.length_eq_zero_iff.mp h.symm
    simp [hnil, sqDistance, sqReversal, rankSum, rankSquareSum]
  | cons r ranks ih =>
    match ranks', h with
    | r' :: ranks', h =>
      have hlength : ranks.length = ranks'.length := Nat.succ.inj h
      have hrest := ih hlength
      simp only [sqDistance, sqReversal, rankSum, rankSquareSum, List.zipWith_cons_cons,
        List.map_cons, List.sum_cons, List.length_cons] at hrest ⊢
      push_cast
      linarith

theorem sqDistance_add_sqReversal {n : ℕ} {ranks ranks' : List ℕ} (h : ranks.Perm (List.range n))
    (h' : ranks'.Perm (List.range n)) :
    sqDistance ranks ranks' + sqReversal (n - 1) ranks ranks' = n * (n * n - 1) / 3 := by
  have hlength : ranks.length = n := by rw [h.length_eq, List.length_range]
  have hlength' : ranks'.length = n := by rw [h'.length_eq, List.length_range]
  have hsum : ∀ {ranks : List ℕ}, ranks.Perm (List.range n) → rankSum ranks = n * (n - 1) / 2 := by
    intro ranks h
    rw [← rankSum_range]
    exact (h.map _).sum_eq
  have hsquares : ∀ {ranks : List ℕ}, ranks.Perm (List.range n) →
      rankSquareSum ranks = n * (n - 1) * (2 * n - 1) / 6 := by
    intro ranks h
    rw [← rankSquareSum_range]
    exact (h.map _).sum_eq
  rw [sqDistance_add_sqReversal_eq _ (hlength.trans hlength'.symm), hsum h, hsum h', hsquares h,
    hsquares h', hlength]
  ring

theorem sum_zipWith_sq_nonneg (f : ℕ → ℕ → ℚ) (l l' : List ℕ) :
    0 ≤ (List.zipWith (fun a b => f a b ^ 2) l l').sum := by
  refine List.sum_nonneg fun x hx => ?_
  obtain ⟨i, hi, rfl⟩ := List.getElem_of_mem hx
  rw [List.getElem_zipWith]
  exact sq_nonneg _

theorem sum_zipWith_sq_eq_zero_iff (f : ℕ → ℕ → ℚ) {l l' : List ℕ} (h : l.length = l'.length) :
    (List.zipWith (fun a b => f a b ^ 2) l l').sum = 0 ↔ List.Forall₂ (fun a b => f a b = 0) l l' := by
  induction l generalizing l' with
  | nil =>
    rw [List.length_eq_zero_iff.mp h.symm]
    simp
  | cons a l ih =>
    match l', h with
    | b :: l', h =>
      have hrest := sum_zipWith_sq_nonneg f l l'
      rw [List.zipWith_cons_cons, List.sum_cons, add_eq_zero_iff_of_nonneg (sq_nonneg _) hrest,
        List.forall₂_cons, ih (Nat.succ.inj h), sq_eq_zero_iff]

theorem sqDistance_eq_zero_iff {ranks ranks' : List ℕ} (h : ranks.length = ranks'.length) :
    sqDistance ranks ranks' = 0 ↔ ranks = ranks' := by
  rw [sqDistance, sum_zipWith_sq_eq_zero_iff _ h, ← List.forall₂_eq_eq_eq]
  simp only [sub_eq_zero, Nat.cast_inj]

/-- The squared distance to the reversed ranks is zero only for these. -/
theorem sqReversal_eq_zero_iff {n : ℕ} {ranks ranks' : List ℕ} (h : ranks.length = ranks'.length)
    (hranks : ∀ r ∈ ranks, r < n) :
    sqReversal (n - 1) ranks ranks' = 0 ↔ ranks' = ranks.map fun r => n - 1 - r := by
  rw [sqReversal, sum_zipWith_sq_eq_zero_iff _ h]
  clear h
  induction ranks generalizing ranks' with
  | nil => simp
  | cons r ranks ih =>
    obtain ⟨hr, hrest⟩ := List.forall_mem_cons.mp hranks
    have hhead : ∀ r' : ℕ, (r : ℚ) + r' - (n - 1) = 0 ↔ r' = n - 1 - r := by
      intro r'
      have hcast : (r : ℚ) + r' - (n - 1) = 0 ↔ ((r + r' + 1 : ℕ) : ℚ) = n := by
        push_cast
        constructor
        · intro hzero
          linarith
        · intro heq
          linarith
      rw [hcast, Nat.cast_inj]
      omega
    match ranks' with
    | [] => simp
    | r' :: ranks' => rw [List.forall₂_cons, ih hrest, hhead, List.map_cons, List.cons_eq_cons]

end Chronoq.Foundations
