import Chronoq.Foundations.Tails
import Chronoq.Bench.Fairness
import Chronoq.Bench.NearestRank
import Chronoq.Bench.ShortestFirst

/-! # `metrics/jct.py`: blocked jobs, and the summary

The count of blocked jobs is held against the other entries of the summary. With mean `μ` and index `J` the
squared deviations add up to `n μ² (1 - J) / J`, so the index bounds how many times lie above `m μ`; and
more than a share of the times lie above it exactly when the percentile at the rest of them does. -/

namespace Chronoq.Bench
open Foundations

set_option autoImplicit false

def holBlockingCount (completionTimesMs : List ℚ) (thresholdMultiplier : ℚ := 3) : ℕ :=
  if completionTimesMs = [] then 0
  else
    let mean := meanJct completionTimesMs
    if mean = 0 then 0
    else
      let threshold := mean * thresholdMultiplier
      completionTimesMs.countP fun jct => threshold < jct

structure Summary where
  meanJct : ℚ
  p50Jct : ℚ
  p95Jct : ℚ
  p99Jct : ℚ
  holBlockingCount : ℚ
  jainsFairness : ℚ
  nJobs : ℚ
  deriving DecidableEq, Repr

def summarise (completionTimesMs : List ℚ) : Except PyException Summary := do
  let p50 ← p50Jct completionTimesMs
  let p95 ← p95Jct completionTimesMs
  let p99 ← p99Jct completionTimesMs
  return {
    meanJct := meanJct completionTimesMs
    p50Jct := p50
    p95Jct := p95
    p99Jct := p99
    holBlockingCount := holBlockingCount completionTimesMs
    jainsFairness := jainsFairnessIndex completionTimesMs
    nJobs := completionTimesMs.length }

/-! ## Times that are not all zero -/

namespace TakesTime
variable {times : List ℚ}

theorem sum_pos (h : TakesTime times) : 0 < times.sum := by
  obtain ⟨x, hx, hne⟩ := h.exists_ne_zero
  refine lt_of_le_of_ne (List.sum_nonneg h.nonneg) fun hzero => hne ?_
  exact List.all_zero_of_le_zero_le_of_sum_eq_zero h.nonneg hzero.symm hx

theorem meanJct_eq (h : TakesTime times) : meanJct times = times.sum / times.length := if_neg h.ne_nil

theorem meanJct_pos (h : TakesTime times) : 0 < meanJct times := by
  rw [h.meanJct_eq]
  exact div_pos h.sum_pos h.length_pos

theorem holBlockingCount_eq (h : TakesTime times) (m : ℚ) :
    holBlockingCount times m = times.countP fun x => meanJct times * m < x := by
  rw [holBlockingCount, if_neg h.ne_nil]
  exact if_neg h.meanJct_pos.ne'

theorem holBlockingCount_mul_lt (h : TakesTime times) (m : ℚ) :
    holBlockingCount times m * m < times.length := by
  rw [h.holBlockingCount_eq, h.meanJct_eq]
  exact countP_mul_lt_length h.nonneg m h.sum_pos

theorem sumSq_deviations_eq (h : TakesTime times) :
    sumSq (times.map (· - times.sum / times.length)) =
      sumSq times * (1 - jainsFairnessIndex times) := by
  have hlength := h.length_pos.ne'
  have hsq := h.sumSq_pos.ne'
  have hsplit := length_mul_sumSq h.ne_nil
  apply mul_left_cancel₀ hlength
  rw [h.index_eq, ← sub_eq_of_eq_add' hsplit]
  field_simp

/-- The more even the times, the fewer lie `m` times above the mean. -/
theorem holBlockingCount_mul_le (h : TakesTime times) {m : ℚ} (hm : 1 ≤ m) :
    holBlockingCount times m *
        ((m - 1) ^ 2 * jainsFairnessIndex times + (1 - jainsFairnessIndex times)) ≤
      times.length * (1 - jainsFairnessIndex times) := by
  have hc : 0 ≤ meanJct times * (m - 1) := mul_nonneg h.meanJct_pos.le (by linarith)
  have hcount := countP_mul_le_of_deviations h.ne_nil hc h.sumSq_deviations_eq
  have hthreshold : times.sum / times.length + meanJct times * (m - 1) = meanJct times * m := by
    rw [← h.meanJct_eq]
    ring
  have hmean : times.length * (meanJct times * (m - 1) * (meanJct times * (m - 1))) =
      sumSq times * ((m - 1) ^ 2 * jainsFairnessIndex times) := by
    have hlength := h.length_pos.ne'
    have hsq := h.sumSq_pos.ne'
    rw [h.meanJct_eq, h.index_eq]
    field_simp
  rw [hthreshold, ← h.holBlockingCount_eq, hmean] at hcount
  refine le_of_mul_le_mul_left ?_ h.sumSq_pos
  linarith

/-- More than a share of the times lie above the threshold when the percentile at the rest does. -/
theorem lt_percentileJct_iff (h : TakesTime times) {p m v : ℚ} (hp : 0 < p) (hp' : p ≤ 100)
    (hv : percentileJct times p = .ok v) :
    meanJct times * m < v ↔ times.length * (1 - p / 100) < holBlockingCount times m := by
  obtain ⟨hi, hok⟩ := percentileJct_eq_ok h.ne_nil hp'
  cases hok.symm.trans hv
  have hsorted := List.pairwise_insertionSort (· ≤ ·) times
  have hperm := List.perm_insertionSort (· ≤ ·) times
  have hcount : (times.countP (fun x => x ≤ meanJct times * m) : ℚ) + holBlockingCount times m =
      times.length := by
    rw [h.holBlockingCount_eq, List.length_eq_countP_add_countP (fun x => x ≤ meanJct times * m)]
    simp only [decide_eq_true_eq, not_le, Nat.cast_add]
  rw [← not_le, ← lt_countP_le_iff hsorted hi, hperm.countP_eq]
  rcases (times.countP fun x => decide (x ≤ meanJct times * m)).eq_zero_or_pos with hzero | hpos
  · rw [hzero, Nat.cast_zero, zero_add] at hcount
    rw [hzero, hcount]
    refine iff_of_true (Nat.not_lt_zero _) ?_
    have hmul := mul_pos h.length_pos hp
    linarith
  · rw [nearestRankIndex_lt_iff p hpos, not_le]
    constructor
    · intro hlt
      linarith
    · intro hlt
      linarith

end TakesTime

/-! ## The summary -/

section Summary
variable {times : List ℚ} {p v : ℚ}

/-- Without a time that is not zero every entry but the count of the jobs is that of no jobs. -/
theorem takesTime_or_zero (hnonneg : ∀ x ∈ times, 0 ≤ x) :
    TakesTime times ∨ (∀ x ∈ times, x = 0) ∧ meanJct times = 0 ∧ jainsFairnessIndex times = 1 ∧
      ∀ m, holBlockingCount times m = 0 := by
  by_cases hne : ∃ x ∈ times, x ≠ 0
  · exact .inl ⟨hnonneg, hne⟩
  · have hzero : ∀ x ∈ times, x = 0 := fun x hx => not_not.mp fun h => hne ⟨x, hx, h⟩
    have hmean : meanJct times = 0 := by
      rw [meanJct, List.sum_eq_zero hzero, zero_div, ite_self]
    have hsq : (times.map fun x => x * x).sum = 0 := sumSq_eq_zero_iff.mpr hzero
    refine .inr ⟨hzero, hmean, ?_, fun m => ?_⟩
    · rw [jainsFairnessIndex, hsq]
      simp only [if_true, ite_self]
    · rw [holBlockingCount, hmean]
      simp only [if_true, ite_self]

theorem percentileJct_eq_zero (hzero : ∀ x ∈ times, x = 0) (hp : p ≤ 100)
    (hv : percentileJct times p = .ok v) : v = 0 := by
  rcases eq_or_ne times [] with rfl | hne
  · cases hv
    rfl
  · obtain ⟨hi, hok⟩ := percentileJct_eq_ok hne hp
    cases hok.symm.trans hv
    exact hzero _ (getElem_insertionSort_mem hi)

theorem percentileJct_mul_le (hnonneg : ∀ x ∈ times, 0 ≤ x) (hp : 0 < p) (hp' : p < 100)
    (hv : percentileJct times p = .ok v) : v * (1 - p / 100) ≤ meanJct times := by
  rcases takesTime_or_zero hnonneg with h | ⟨hzero, hmean, -, -⟩
  · -- fewer times than the percentile leaves above it lie this far above the mean
    have hshare : 0 < 1 - p / 100 := by linarith
    have hfew := h.holBlockingCount_mul_lt (1 / (1 - p / 100))
    have hle := (h.lt_percentileJct_iff hp hp'.le hv (m := 1 / (1 - p / 100))).not.mpr (by
      rw [mul_one_div, div_lt_iff₀ hshare] at hfew
      exact hfew.not_gt)
    rw [not_lt, mul_one_div, le_div_iff₀ hshare] at hle
    exact hle
  · rw [percentileJct_eq_zero hzero hp'.le hv, hmean, zero_mul]

theorem blocked_le_of_index (hnonneg : ∀ x ∈ times, 0 ≤ x) {m : ℚ} (hm : 1 ≤ m) :
    holBlockingCount times m *
        ((m - 1) ^ 2 * jainsFairnessIndex times + (1 - jainsFairnessIndex times)) ≤
      times.length * (1 - jainsFairnessIndex times) := by
  rcases takesTime_or_zero hnonneg with h | ⟨-, -, hindex, hblocked⟩
  · exact h.holBlockingCount_mul_le hm
  · rw [hblocked, hindex, Nat.cast_zero, zero_mul, sub_self, mul_zero]

theorem blocked_iff_percentileJct (hnonneg : ∀ x ∈ times, 0 ≤ x) (m : ℚ) (hp : 0 < p) (hp' : p ≤ 100)
    (hv : percentileJct times p = .ok v) :
    meanJct times * m < v ↔ times.length * (1 - p / 100) < holBlockingCount times m := by
  rcases takesTime_or_zero hnonneg with h | ⟨hzero, hmean, -, hblocked⟩
  · exact h.lt_percentileJct_iff hp hp' hv
  · have hshare : 0 ≤ (times.length : ℚ) * (1 - p / 100) :=
      mul_nonneg (Nat.cast_nonneg _) (by linarith)
    rw [percentileJct_eq_zero hzero hp' hv, hmean, hblocked, zero_mul, Nat.cast_zero]
    exact iff_of_false (lt_irrefl 0) hshare.not_gt

end Summary

/-- What the summary says of blocked jobs: the index and the multiplier bound how many there are, there are
more than a share of them when the percentile at the rest lies above the threshold, and no percentile is
further above the mean than the share of jobs above it allows. -/
theorem summary_bounds_blocked (times : List ℚ) (hnonneg : ∀ x ∈ times, 0 ≤ x) (m : ℚ) (hm : 1 ≤ m) :
    holBlockingCount times m *
        ((m - 1) ^ 2 * jainsFairnessIndex times + (1 - jainsFairnessIndex times)) ≤
      times.length * (1 - jainsFairnessIndex times) ∧
    (times ≠ [] → holBlockingCount times m * m < times.length) ∧
    (∀ p v, 0 < p → p ≤ 100 → percentileJct times p = .ok v →
      (meanJct times * m < v ↔ times.length * (1 - p / 100) < holBlockingCount times m)) ∧
    ∃ s, summarise times = .ok s ∧
      s.holBlockingCount * (1 + 3 * s.jainsFairness) ≤ s.nJobs * (1 - s.jainsFairness) ∧
      (s.meanJct * 3 < s.p99Jct ↔ s.nJobs < 100 * s.holBlockingCount) ∧
      s.p50Jct ≤ 2 * s.meanJct ∧ s.p95Jct ≤ 20 * s.meanJct ∧ s.p99Jct ≤ 100 * s.meanJct := by
  have hpercentile : ∀ p, p ≤ 100 → ∃ v, percentileJct times p = .ok v := by
    intro p hp
    rcases eq_or_ne times [] with rfl | hne
    · exact ⟨0, rfl⟩
    · obtain ⟨hi, hok⟩ := percentileJct_eq_ok hne hp
      exact ⟨_, hok⟩
  obtain ⟨p50, hp50⟩ := hpercentile 50 (by norm_num)
  obtain ⟨p95, hp95⟩ := hpercentile 95 (by norm_num)
  obtain ⟨p99, hp99⟩ := hpercentile 99 (by norm_num)
  refine ⟨blocked_le_of_index hnonneg hm, ?_,
    fun p v hp hp' hv => blocked_iff_percentileJct hnonneg m hp hp' hv, ?_⟩
  · intro hne
    rcases takesTime_or_zero hnonneg with h | ⟨-, -, -, hblocked⟩
    · exact h.holBlockingCount_mul_lt m
    · rw [hblocked, Nat.cast_zero, zero_mul]
      exact Nat.cast_pos.mpr (List.length_pos_of_ne_nil hne)
  · have hsummary : summarise times = .ok
        ⟨meanJct times, p50, p95, p99, holBlockingCount times, jainsFairnessIndex times, times.length⟩ := by
      rw [summarise, p50Jct, hp50, p95Jct, hp95, p99Jct, hp99]
      rfl
    have hindex := blocked_le_of_index hnonneg (show (1 : ℚ) ≤ 3 by norm_num)
    have hshare := blocked_iff_percentileJct hnonneg 3 (by norm_num) (by norm_num) hp99
    have h50 := percentileJct_mul_le hnonneg (by norm_num) (by norm_num) hp50
    have h95 := percentileJct_mul_le hnonneg (by norm_num) (by norm_num) hp95
    have h99 := percentileJct_mul_le hnonneg (by norm_num) (by norm_num) hp99
    refine ⟨_, hsummary, ?_, hshare.trans ?_, ?_, ?_, ?_⟩
    · linarith
    · constructor
      · intro h
        linarith
      · intro h
        linarith
    · linarith
    · linarith
    · linarith

/-- One of five jobs takes far longer than the others. -/
theorem summary_bounds_blocked_convoy :
    (holBlockingCount [1, 1, 1, 1, 46] : ℚ) * 3 < 5 ∧
      ∃ s, summarise [1, 1, 1, 1, 46] = .ok s ∧ s.p99Jct ≤ 100 * s.meanJct := by
  obtain ⟨-, hfew, -, s, hs, -, -, -, -, h99⟩ :=
    summary_bounds_blocked [1, 1, 1, 1, 46] (by decide +kernel) 3 (by norm_num)
  exact ⟨hfew (by decide), s, hs, h99⟩

end Chronoq.Bench
