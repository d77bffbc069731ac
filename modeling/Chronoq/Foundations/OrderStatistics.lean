import Chronoq.Foundations.Statistics

/-! # Order statistics of a list

* `lt_countP_le_iff`: in a sorted list the entry at position `i` is at most `w` exactly when more than
  `i` entries are, which ties positions in the sorted list to counts in any order of it.
* `insertionSort_congr`: sorting forgets the order, and so does `percentile`.
* `percentile_eq_interpolation`: the percentile read off the two entries around its position.
* `percentile_mem_Icc`: it lies between any bounds of the values; the extreme ones are the least and
  the greatest value (`isLeast_percentile_zero`, `isGreatest_percentile_hundred`). -/

namespace Chronoq.Foundations

set_option autoImplicit false

/-! ## Positions and counts -/

section Sorted
variable {α : Type*} [LinearOrder α]

theorem insertionSort_congr {xs ys : List α} (h : xs.Perm ys) :
    xs.insertionSort (· ≤ ·) = ys.insertionSort (· ≤ ·) := by
  have hperm : (xs.insertionSort (· ≤ ·)).Perm (ys.insertionSort (· ≤ ·)) :=
    (List.perm_insertionSort _ xs).trans (h.trans (List.perm_insertionSort _ ys).symm)
  exact hperm.eq_of_pairwise (fun _ _ _ _ => le_antisymm) (List.pairwise_insertionSort _ xs)
    (List.pairwise_insertionSort _ ys)

theorem lt_countP_le_iff {s : List α} (hs : s.Pairwise (· ≤ ·)) {i : ℕ} (hi : i < s.length) (w : α) :
    i < s.countP (fun x => x ≤ w) ↔ s[i] ≤ w := by
  induction s generalizing i with
  | nil => cases hi
  | cons a s ih =>
    obtain ⟨hhead, htail⟩ := List.pairwise_cons.mp hs
    by_cases haw : a ≤ w
    · rw [List.countP_cons_of_pos (by simpa using haw)]
      cases i with
      | zero => simpa using haw
      | succ i =>
        rw [List.getElem_cons_succ, ← ih htail (by simpa using hi)]
        omega
    · -- everything behind `a` is above `w` as well
      have habove : ∀ x ∈ a :: s, ¬ x ≤ w := by
        intro x hx hxw
        rcases List.mem_cons.mp hx with rfl | hx
        · exact haw hxw
        · exact haw ((hhead x hx).trans hxw)
      have hnone : (a :: s).countP (fun x => x ≤ w) = 0 := by
        rw [List.countP_eq_zero]
        intro x hx
        simpa using habove x hx
      rw [hnone]
      exact iff_of_false (Nat.not_lt_zero i) (habove _ (List.getElem_mem hi))

theorem getElem_insertionSort_mem {xs : List α} {i : ℕ}
    (hi : i < (xs.insertionSort (· ≤ ·)).length) : (xs.insertionSort (· ≤ ·))[i] ∈ xs :=
  List.mem_insertionSort _ |>.mp (List.getElem_mem hi)

end Sorted

/-! ## Percentiles -/

section Percentile
variable {q : ℚ} {xs ys : List ℚ}

theorem percentile_perm (h : xs.Perm ys) (q : ℚ) : percentile q xs = percentile q ys := by
  rw [percentile, percentile, insertionSort_congr h, h.length_eq]

/-- The percentile at a position from `i` up to `i + 1`. -/
theorem percentile_eq {i : ℕ} (hlow : (i : ℚ) ≤ q / 100 * (xs.length - 1))
    (hhigh : q / 100 * (xs.length - 1) < i + 1) :
    percentile q xs = (xs.insertionSort (· ≤ ·)).getD i 0 + (q / 100 * (xs.length - 1) - i) *
      ((xs.insertionSort (· ≤ ·)).getD (i + 1) ((xs.insertionSort (· ≤ ·)).getD i 0) -
        (xs.insertionSort (· ≤ ·)).getD i 0) := by
  have hfloor : ⌊q / 100 * (xs.length - 1)⌋.toNat = i := by
    have heq : ⌊q / 100 * (xs.length - 1 : ℚ)⌋ = (i : ℤ) :=
      Int.floor_eq_iff.mpr ⟨by exact_mod_cast hlow, by exact_mod_cast hhigh⟩
    rw [heq, Int.toNat_natCast]
  rw [percentile, hfloor]

theorem percentile_eq_interpolation {i : ℕ} (hi : i + 1 < (xs.insertionSort (· ≤ ·)).length)
    (hlow : (i : ℚ) ≤ q / 100 * (xs.length - 1)) (hhigh : q / 100 * (xs.length - 1) < i + 1) :
    percentile q xs = (xs.insertionSort (· ≤ ·))[i] + (q / 100 * (xs.length - 1) - i) *
      ((xs.insertionSort (· ≤ ·))[i + 1] - (xs.insertionSort (· ≤ ·))[i]) := by
  rw [percentile_eq hlow hhigh, List.getD_eq_getElem _ _ hi, List.getD_eq_getElem _ _ (by omega)]

/-- At a position of the list, the percentile is the entry there. -/
theorem percentile_eq_getElem {i : ℕ} (hi : i < (xs.insertionSort (· ≤ ·)).length)
    (hposition : q / 100 * (xs.length - 1) = i) :
    percentile q xs = (xs.insertionSort (· ≤ ·))[i] := by
  rw [percentile_eq (i := i) hposition.ge (by rw [hposition]; exact lt_add_one _), hposition,
    List.getD_eq_getElem _ _ hi]
  ring

theorem exists_position (hq : 0 ≤ q) (hq' : q ≤ 100) (hne : xs ≠ []) :
    ∃ i, i < (xs.insertionSort (· ≤ ·)).length ∧ (i : ℚ) ≤ q / 100 * (xs.length - 1) ∧
      q / 100 * (xs.length - 1) < i + 1 := by
  have hlast : (0 : ℚ) ≤ xs.length - 1 := by
    have hone : (1 : ℚ) ≤ xs.length := by exact_mod_cast List.length_pos_of_ne_nil hne
    linarith
  have hnonneg : 0 ≤ q / 100 * (xs.length - 1) := mul_nonneg (by linarith) hlast
  have hle : q / 100 * (xs.length - 1) ≤ xs.length - 1 := mul_le_of_le_one_left hlast (by linarith)
  refine ⟨⌊q / 100 * (xs.length - 1 : ℚ)⌋₊, ?_, Nat.floor_le hnonneg, Nat.lt_floor_add_one _⟩
  rw [List.length_insertionSort, Nat.floor_lt hnonneg]
  linarith

theorem percentile_mem_Icc {a b : ℚ} (hq : 0 ≤ q) (hq' : q ≤ 100) (hne : xs ≠ [])
    (h : ∀ x ∈ xs, a ≤ x ∧ x ≤ b) : a ≤ percentile q xs ∧ percentile q xs ≤ b := by
  obtain ⟨i, hi, hlow, hhigh⟩ := exists_position hq hq' hne
  have hbelow := h _ (getElem_insertionSort_mem hi)
  rw [percentile_eq hlow hhigh, List.getD_eq_getElem _ _ hi]
  -- the entry above is one of the values too, and without one there is nothing to interpolate
  have habove : a ≤ (xs.insertionSort (· ≤ ·)).getD (i + 1) (xs.insertionSort (· ≤ ·))[i] ∧
      (xs.insertionSort (· ≤ ·)).getD (i + 1) (xs.insertionSort (· ≤ ·))[i] ≤ b := by
    by_cases hi' : i + 1 < (xs.insertionSort (· ≤ ·)).length
    · rw [List.getD_eq_getElem _ _ hi']
      exact h _ (getElem_insertionSort_mem hi')
    · rw [List.getD_eq_default _ _ (not_lt.mp hi')]
      exact hbelow
  generalize (xs.insertionSort (· ≤ ·)).getD (i + 1) (xs.insertionSort (· ≤ ·))[i] = above at habove ⊢
  generalize (xs.insertionSort (· ≤ ·))[i] = below at hbelow ⊢
  constructor <;> nlinarith

theorem isLeast_percentile_zero (hne : xs ≠ []) : IsLeast {x | x ∈ xs} (percentile 0 xs) := by
  have hi : 0 < (xs.insertionSort (· ≤ ·)).length := by
    rw [List.length_insertionSort]
    exact List.length_pos_of_ne_nil hne
  have heq : percentile 0 xs = (xs.insertionSort (· ≤ ·))[0] :=
    percentile_eq_getElem hi (by simp)
  rw [heq]
  refine ⟨getElem_insertionSort_mem hi, fun x hx => ?_⟩
  obtain ⟨j, hj, rfl⟩ := List.getElem_of_mem ((List.mem_insertionSort (· ≤ ·)).mpr hx)
  exact (List.pairwise_insertionSort (· ≤ ·) xs).rel_get_of_le (a := ⟨0, hi⟩) (b := ⟨j, hj⟩)
    (Nat.zero_le j)

theorem isGreatest_percentile_hundred (hne : xs ≠ []) :
    IsGreatest {x | x ∈ xs} (percentile 100 xs) := by
  have hlength := List.length_insertionSort (· ≤ ·) xs
  have hpos := List.length_pos_of_ne_nil hne
  have hi : xs.length - 1 < (xs.insertionSort (· ≤ ·)).length := by omega
  have heq : percentile 100 xs = (xs.insertionSort (· ≤ ·))[xs.length - 1] :=
    percentile_eq_getElem hi (by rw [Nat.cast_sub hpos]; norm_num)
  rw [heq]
  refine ⟨getElem_insertionSort_mem hi, fun x hx => ?_⟩
  obtain ⟨j, hj, rfl⟩ := List.getElem_of_mem ((List.mem_insertionSort (· ≤ ·)).mpr hx)
  exact (List.pairwise_insertionSort (· ≤ ·) xs).rel_get_of_le (a := ⟨j, hj⟩)
    (b := ⟨xs.length - 1, hi⟩) (Nat.le_sub_one_of_lt (hlength ▸ hj))

end Percentile

end Chronoq.Foundations
