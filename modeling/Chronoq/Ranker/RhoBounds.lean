import Chronoq.Foundations.Ranking
import Chronoq.Ranker.FitRuns
import Chronoq.Ranker.PairMetrics

/-! # The range of Spearman's rho

`spearmanRho` ranks scores and labels by sorting their positions twice, and both rank vectors are
permutations of `0 .. n - 1`. So rho is `1` less a share of the squared distance of the two rankings, and
just as well `-1` plus that share of the distance to the reversed ranking (`spearmanRho_eq_reversal`). -/

namespace Chronoq.Ranker
open Foundations

set_option autoImplicit false

/-- The rho of the rows of one group. -/
def groupRho (argsort : List ℚ → List ℕ) (rows : List ScoredRow) : ℚ :=
  spearmanRho argsort (rows.map Prod.fst) (rows.map Prod.snd)

theorem spearmanRhoGrouped_eq (argsort : List ℚ → List ℕ) {scores labels : List ℚ}
    {groupSizes : List ℕ} (hs : groupSizes.sum ≤ scores.length)
    (hl : groupSizes.sum ≤ labels.length) :
    spearmanRhoGrouped argsort scores labels groupSizes =
      mean (((scoredGroups scores labels groupSizes).filter fun rows => 2 ≤ rows.length).map
        (groupRho argsort)) := by
  rw [spearmanRhoGrouped, zip_groupSlices hs hl, scoredGroups, List.filter_map, List.map_map]
  rfl

section Ranks
variable {argsort : List ℚ → List ℕ} {scores labels : List ℚ}

theorem ranksOf_perm (h : ∀ xs, IsArgsort xs (argsort xs)) (xs : List ℚ) :
    (ranksOf argsort xs).Perm (List.range xs.length) := by
  have hperm := (h ((argsort xs).map fun (position : ℕ) => (position : ℚ))).perm
  rwa [List.length_map, (h xs).perm.length_eq, List.length_range] at hperm

theorem ranksOf_length (h : ∀ xs, IsArgsort xs (argsort xs)) (xs : List ℚ) :
    (ranksOf argsort xs).length = xs.length := by
  rw [(ranksOf_perm h xs).length_eq, List.length_range]

theorem rhoDenominator_pos {n : ℕ} (hn : 2 ≤ n) : 0 < (n : ℚ) * (n * n - 1) := by
  have hn' : (2 : ℚ) ≤ n := by exact_mod_cast hn
  have hsquare : (1 : ℚ) < n * n := by nlinarith
  exact mul_pos (by linarith) (by linarith)

theorem spearmanRho_eq (argsort : List ℚ → List ℕ) (labels : List ℚ) (htwo : 2 ≤ scores.length) :
    spearmanRho argsort scores labels =
      1 - 6 * sqDistance (ranksOf argsort scores) (ranksOf argsort labels) /
        ((scores.length : ℚ) * (scores.length * scores.length - 1)) := by
  have hsquares : ((List.zipWith (fun (s l : ℕ) => (s : ℚ) - l) (ranksOf argsort scores)
      (ranksOf argsort labels)).map fun x => x * x).sum =
      sqDistance (ranksOf argsort scores) (ranksOf argsort labels) := by
    rw [sqDistance, List.map_zipWith]
    simp only [sq]
  rw [spearmanRho]
  simp only [if_neg (not_lt.mpr htwo), if_neg (rhoDenominator_pos htwo).ne', hsquares]

theorem spearmanRho_eq_reversal (h : ∀ xs, IsArgsort xs (argsort xs))
    (hlength : scores.length = labels.length) (htwo : 2 ≤ scores.length) :
    spearmanRho argsort scores labels =
      -1 + 6 * sqReversal (scores.length - 1) (ranksOf argsort scores) (ranksOf argsort labels) /
        ((scores.length : ℚ) * (scores.length * scores.length - 1)) := by
  have hperm := ranksOf_perm h labels
  rw [← hlength] at hperm
  have hsum := sqDistance_add_sqReversal (ranksOf_perm h scores) hperm
  have hpos := (rhoDenominator_pos htwo).ne'
  have hdistance : sqDistance (ranksOf argsort scores) (ranksOf argsort labels) =
      (scores.length : ℚ) * (scores.length * scores.length - 1) / 3 -
        sqReversal (scores.length - 1) (ranksOf argsort scores) (ranksOf argsort labels) := by
    linarith
  rw [spearmanRho_eq argsort labels htwo, hdistance]
  generalize (scores.length : ℚ) * (scores.length * scores.length - 1) = total at hpos ⊢
  field_simp
  ring

end Ranks

/-! ## Bounds and extremes -/

/-- The second of two rank vectors of `n` items is the first counted down from `n - 1`. -/
def ReversedRanks (n : ℕ) (ranks ranks' : List ℕ) : Prop := ranks' = ranks.map fun r => n - 1 - r

structure RhoExtremes (argsort : List ℚ → List ℕ) (scores labels : List ℚ) : Prop where
  lower : -1 ≤ spearmanRho argsort scores labels
  upper : spearmanRho argsort scores labels ≤ 1
  one : spearmanRho argsort scores labels = 1 ↔ ranksOf argsort scores = ranksOf argsort labels
  minusOne : spearmanRho argsort scores labels = -1 ↔
    ReversedRanks scores.length (ranksOf argsort scores) (ranksOf argsort labels)

section Bounds
variable {argsort : List ℚ → List ℕ} {scores labels : List ℚ}

theorem rhoExtremes (h : ∀ xs, IsArgsort xs (argsort xs)) (hlength : scores.length = labels.length)
    (htwo : 2 ≤ scores.length) : RhoExtremes argsort scores labels := by
  have hpos := rhoDenominator_pos htwo
  have hranks : (ranksOf argsort scores).length = (ranksOf argsort labels).length := by
    rw [ranksOf_length h, ranksOf_length h, hlength]
  have hless : ∀ r ∈ ranksOf argsort scores, r < scores.length := fun r hr =>
    List.mem_range.mp ((ranksOf_perm h scores).mem_iff.mp hr)
  have hdistance := sum_zipWith_sq_nonneg (fun (r r' : ℕ) => (r : ℚ) - r') (ranksOf argsort scores)
    (ranksOf argsort labels)
  have hreversal := sum_zipWith_sq_nonneg (fun (r r' : ℕ) => (r : ℚ) + r' - (scores.length - 1))
    (ranksOf argsort scores) (ranksOf argsort labels)
  rw [← sqDistance] at hdistance
  rw [← sqReversal] at hreversal
  constructor
  · rw [spearmanRho_eq_reversal h hlength htwo]
    have hshare := div_nonneg (mul_nonneg (show (0 : ℚ) ≤ 6 by norm_num) hreversal) hpos.le
    linarith
  · rw [spearmanRho_eq argsort labels htwo]
    have hshare := div_nonneg (mul_nonneg (show (0 : ℚ) ≤ 6 by norm_num) hdistance) hpos.le
    linarith
  · rw [spearmanRho_eq argsort labels htwo, sub_eq_self, div_eq_zero_iff, or_iff_left hpos.ne',
      mul_eq_zero, or_iff_right (by norm_num), sqDistance_eq_zero_iff hranks]
  · rw [spearmanRho_eq_reversal h hlength htwo, add_eq_left, div_eq_zero_iff, or_iff_left hpos.ne',
      mul_eq_zero, or_iff_right (by norm_num), sqReversal_eq_zero_iff hranks hless]
    rfl

theorem spearmanRhoGrouped_mem (h : ∀ xs, IsArgsort xs (argsort xs)) {groupSizes : List ℕ}
    (hs : groupSizes.sum ≤ scores.length) (hl : groupSizes.sum ≤ labels.length) :
    -1 ≤ spearmanRhoGrouped argsort scores labels groupSizes ∧
      spearmanRhoGrouped argsort scores labels groupSizes ≤ 1 := by
  rw [spearmanRhoGrouped_eq argsort hs hl]
  refine mean_mem_Icc (by norm_num) zero_le_one fun x hx => ?_
  obtain ⟨rows, hrows, rfl⟩ := List.mem_map.mp hx
  have htwo : 2 ≤ rows.length := of_decide_eq_true (List.mem_filter.mp hrows).2
  have hextremes : RhoExtremes argsort (rows.map Prod.fst) (rows.map Prod.snd) :=
    rhoExtremes h (by rw [List.length_map, List.length_map]) (by rwa [List.length_map])
  exact ⟨hextremes.lower, hextremes.upper⟩

/-- Rho lies between `-1` and `1`, with equality for equal and for reversed rankings; so does its mean
over the groups. -/
theorem spearman_bounds (h : ∀ xs, IsArgsort xs (argsort xs)) :
    (∀ scores labels : List ℚ, scores.length = labels.length → 2 ≤ scores.length →
        RhoExtremes argsort scores labels) ∧
      ∀ (scores labels : List ℚ) (groupSizes : List ℕ), scores.length = groupSizes.sum →
        labels.length = groupSizes.sum →
        -1 ≤ spearmanRhoGrouped argsort scores labels groupSizes ∧
          spearmanRhoGrouped argsort scores labels groupSizes ≤ 1 :=
  ⟨fun _ _ hlength htwo => rhoExtremes h hlength htwo,
    fun _ _ _ hs hl => spearmanRhoGrouped_mem h hs.ge hl.ge⟩

end Bounds

/-! ## An argsort -/

theorem sortPositions_stable (xs : List ℚ) : IsStableArgsort xs (sortPositions xs) :=
  isStableArgsort_insertionSort xs 0

theorem spearman_bounds_two_rows : RhoExtremes sortPositions [3, 1] [0, 1] :=
  (spearman_bounds fun xs => (sortPositions_stable xs).isArgsort).1 [3, 1] [0, 1] rfl le_rfl

end Chronoq.Ranker
