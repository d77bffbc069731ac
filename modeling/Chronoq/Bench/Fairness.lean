import Chronoq.Foundations.Moments

/-! # `metrics/jct.py`: Jain's fairness index

For `n` nonnegative times that are not all zero the index is `s₁² / (n s₂)` with the first two power sums
of the times. Its bounds are those of `s₁²` against `n s₂` and `s₂`, and it is attained where these are. -/

namespace Chronoq.Bench
open Foundations

set_option autoImplicit false

def jainsFairnessIndex (completionTimesMs : List ℚ) : ℚ :=
  if completionTimesMs = [] then 1
  else
    let n := completionTimesMs.length
    let s1 := completionTimesMs.sum
    let s2 := (completionTimesMs.map fun x => x * x).sum
    if s2 = 0 then 1 else s1 * s1 / (n * s2)

variable {times times' : List ℚ}

/-- Times of jobs of which at least one takes any time. -/
structure TakesTime (times : List ℚ) : Prop where
  nonneg : ∀ x ∈ times, 0 ≤ x
  exists_ne_zero : ∃ x ∈ times, x ≠ 0

namespace TakesTime

theorem ne_nil (h : TakesTime times) : times ≠ [] := by
  obtain ⟨x, hx, -⟩ := h.exists_ne_zero
  exact List.ne_nil_of_mem hx

theorem length_pos (h : TakesTime times) : (0 : ℚ) < times.length :=
  Nat.cast_pos.mpr (List.length_pos_of_ne_nil h.ne_nil)

theorem sumSq_pos (h : TakesTime times) : 0 < sumSq times := by
  obtain ⟨x, hx, hne⟩ := h.exists_ne_zero
  exact lt_of_le_of_ne (sumSq_nonneg times) fun heq => hne (sumSq_eq_zero_iff.mp heq.symm x hx)

theorem index_eq (h : TakesTime times) :
    jainsFairnessIndex times = times.sum * times.sum / (times.length * sumSq times) := by
  rw [jainsFairnessIndex, if_neg h.ne_nil]
  exact if_neg h.sumSq_pos.ne'

theorem index_le_one (h : TakesTime times) : jainsFairnessIndex times ≤ 1 := by
  rw [h.index_eq, div_le_one (mul_pos h.length_pos h.sumSq_pos)]
  exact sum_mul_self_le times

theorem index_eq_one_iff (h : TakesTime times) :
    jainsFairnessIndex times = 1 ↔ ∀ x ∈ times, ∀ y ∈ times, x = y := by
  rw [h.index_eq, div_eq_one_iff_eq (mul_pos h.length_pos h.sumSq_pos).ne']
  exact sum_mul_self_eq_iff h.ne_nil

theorem le_index (h : TakesTime times) : 1 / times.length ≤ jainsFairnessIndex times := by
  rw [h.index_eq, div_mul_eq_div_div, div_right_comm]
  refine div_le_div_of_nonneg_right ?_ h.length_pos.le
  rw [one_le_div h.sumSq_pos]
  exact sumSq_le h.nonneg

/-- Some value is nonzero, so at most one is exactly when one is. -/
theorem index_eq_inv_iff (h : TakesTime times) :
    jainsFairnessIndex times = 1 / times.length ↔ times.countP (· ≠ 0) = 1 := by
  have hpos : 0 < times.countP (· ≠ 0) := by
    obtain ⟨x, hx, hne⟩ := h.exists_ne_zero
    exact List.countP_pos_iff.mpr ⟨x, hx, by simpa using hne⟩
  rw [h.index_eq, div_mul_eq_div_div, div_right_comm, div_left_inj' h.length_pos.ne',
    div_eq_one_iff_eq h.sumSq_pos.ne', eq_comm, sumSq_eq_iff h.nonneg]
  omega

theorem perm (h : TakesTime times) (hperm : times.Perm times') : TakesTime times' where
  nonneg x hx := h.nonneg x (hperm.mem_iff.mpr hx)
  exists_ne_zero := by
    obtain ⟨x, hx, hne⟩ := h.exists_ne_zero
    exact ⟨x, hperm.mem_iff.mp hx, hne⟩

theorem index_perm (h : TakesTime times) (hperm : times.Perm times') :
    jainsFairnessIndex times' = jainsFairnessIndex times := by
  rw [h.index_eq, (h.perm hperm).index_eq, hperm.sum_eq, hperm.length_eq, sumSq_perm hperm]

theorem scaled (h : TakesTime times) {c : ℚ} (hc : 0 < c) : TakesTime (times.map (c * ·)) where
  nonneg := List.forall_mem_map.mpr fun x hx => mul_nonneg hc.le (h.nonneg x hx)
  exists_ne_zero := by
    obtain ⟨x, hx, hne⟩ := h.exists_ne_zero
    exact ⟨c * x, List.mem_map_of_mem hx, mul_ne_zero hc.ne' hne⟩

theorem index_scaled (h : TakesTime times) {c : ℚ} (hc : 0 < c) :
    jainsFairnessIndex (times.map (c * ·)) = jainsFairnessIndex times := by
  have hsum : (times.map (c * ·)).sum = c * times.sum := by
    rw [List.sum_map_mul_left, List.map_id']
  have hlength := h.length_pos.ne'
  have hsumSq := h.sumSq_pos.ne'
  rw [h.index_eq, (h.scaled hc).index_eq, hsum, sumSq_scaled, List.length_map]
  field_simp

end TakesTime

theorem jains_index_is_fairness (times : List ℚ) (hnonneg : ∀ x ∈ times, 0 ≤ x)
    (hne : ∃ x ∈ times, x ≠ 0) :
    1 / times.length ≤ jainsFairnessIndex times ∧ jainsFairnessIndex times ≤ 1 ∧
    (jainsFairnessIndex times = 1 ↔ ∀ x ∈ times, ∀ y ∈ times, x = y) ∧
    (jainsFairnessIndex times = 1 / times.length ↔ times.countP (· ≠ 0) = 1) ∧
    (∀ times', times.Perm times' → jainsFairnessIndex times' = jainsFairnessIndex times) ∧
    ∀ c, 0 < c → jainsFairnessIndex (times.map (c * ·)) = jainsFairnessIndex times := by
  have h : TakesTime times := ⟨hnonneg, hne⟩
  exact ⟨h.le_index, h.index_le_one, h.index_eq_one_iff, h.index_eq_inv_iff,
    fun _ hperm => h.index_perm hperm, fun _ hc => h.index_scaled hc⟩

theorem jains_index_is_fairness_one_busy : jainsFairnessIndex [0, 5, 0] = 1 / 3 :=
  (jains_index_is_fairness [0, 5, 0] (by decide) (by decide)).2.2.2.1.mpr (by decide)

end Chronoq.Bench
