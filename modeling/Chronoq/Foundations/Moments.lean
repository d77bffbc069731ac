import Mathlib

/-! # The first two power sums of a list

For `n` values of an ordered field with sum `s₁` and sum of squares `s₂`:

* `sum_mul_self_le`: `s₁² ≤ n s₂`, with equality exactly when all values are equal, read off the sum of
  the squared deviations from the mean (`sumSq_deviations`).
* `sumSq_le`: if the values are nonnegative then `s₂ ≤ s₁²`, with equality exactly when no two of them
  are nonzero. -/

namespace Chronoq.Foundations

set_option autoImplicit false

variable {K : Type*} [Field K]

def sumSq (xs : List K) : K := (xs.map fun x => x * x).sum

@[simp] theorem sumSq_nil : sumSq ([] : List K) = 0 := rfl

@[simp] theorem sumSq_cons (x : K) (xs : List K) : sumSq (x :: xs) = x * x + sumSq xs := by
  simp [sumSq]

theorem sumSq_perm {xs ys : List K} (h : xs.Perm ys) : sumSq xs = sumSq ys :=
  (h.map _).sum_eq

theorem sumSq_scaled (c : K) (xs : List K) : sumSq (xs.map (c * ·)) = c * c * sumSq xs := by
  induction xs with
  | nil => simp
  | cons x xs ih =>
    rw [List.map_cons, sumSq_cons, sumSq_cons, ih]
    ring

theorem sumSq_deviations (m : K) (xs : List K) :
    sumSq (xs.map (· - m)) = sumSq xs - 2 * m * xs.sum + xs.length * (m * m) := by
  induction xs with
  | nil => simp
  | cons x xs ih =>
    rw [List.map_cons, sumSq_cons, ih, sumSq_cons, List.sum_cons, List.length_cons]
    push_cast
    ring

variable [LinearOrder K] [IsStrictOrderedRing K]

theorem sumSq_nonneg (xs : List K) : 0 ≤ sumSq xs := by
  refine List.sum_nonneg fun y hy => ?_
  obtain ⟨x, -, rfl⟩ := List.mem_map.mp hy
  exact mul_self_nonneg x

theorem sumSq_eq_zero_iff {xs : List K} : sumSq xs = 0 ↔ ∀ x ∈ xs, x = 0 := by
  induction xs with
  | nil => simp
  | cons x xs ih =>
    rw [sumSq_cons, add_eq_zero_iff_of_nonneg (mul_self_nonneg x) (sumSq_nonneg xs), ih,
      mul_self_eq_zero, List.forall_mem_cons]

/-! ## Against the number of values -/

/-- The gap between `n s₂` and `s₁²` is `n` times the squared deviations from the mean. -/
theorem length_mul_sumSq {xs : List K} (hne : xs ≠ []) :
    xs.length * sumSq xs = xs.sum * xs.sum +
      xs.length * sumSq (xs.map (· - xs.sum / xs.length)) := by
  have hlength : (xs.length : K) ≠ 0 := Nat.cast_ne_zero.mpr (List.length_pos_of_ne_nil hne).ne'
  rw [sumSq_deviations]
  field_simp
  ring

theorem sum_mul_self_le (xs : List K) : xs.sum * xs.sum ≤ xs.length * sumSq xs := by
  rcases eq_or_ne xs [] with rfl | hne
  · simp
  · rw [length_mul_sumSq hne]
    exact le_add_of_nonneg_right (mul_nonneg (Nat.cast_nonneg _) (sumSq_nonneg _))

theorem sum_mul_self_eq_iff {xs : List K} (hne : xs ≠ []) :
    xs.sum * xs.sum = xs.length * sumSq xs ↔ ∀ x ∈ xs, ∀ y ∈ xs, x = y := by
  have hlength : (xs.length : K) ≠ 0 := Nat.cast_ne_zero.mpr (List.length_pos_of_ne_nil hne).ne'
  rw [length_mul_sumSq hne, left_eq_add, mul_eq_zero, or_iff_right hlength, sumSq_eq_zero_iff,
    List.forall_mem_map]
  constructor
  · intro h x hx y hy
    rw [sub_eq_zero.mp (h x hx), sub_eq_zero.mp (h y hy)]
  · -- the mean of equal values is each of them
    intro h x hx
    have hsum : xs.sum = xs.length * x := by
      rw [List.sum_eq_card_nsmul xs x fun y hy => h y hy x hx, nsmul_eq_mul]
    rw [hsum, mul_div_cancel_left₀ _ hlength, sub_self]

/-! ## Against the square of the sum -/

section Nonneg
variable {xs : List K}

theorem sumSq_le (h : ∀ x ∈ xs, 0 ≤ x) : sumSq xs ≤ xs.sum * xs.sum := by
  induction xs with
  | nil => simp
  | cons x xs ih =>
    obtain ⟨hx, hxs⟩ := List.forall_mem_cons.mp h
    have hcross : 0 ≤ x * xs.sum := mul_nonneg hx (List.sum_nonneg hxs)
    have hrest := ih hxs
    rw [sumSq_cons, List.sum_cons]
    nlinarith

theorem sum_eq_zero_iff_of_nonneg (h : ∀ x ∈ xs, 0 ≤ x) : xs.sum = 0 ↔ ∀ x ∈ xs, x = 0 :=
  ⟨fun hsum _ hx => List.all_zero_of_le_zero_le_of_sum_eq_zero h hsum hx, List.sum_eq_zero⟩

theorem sumSq_eq_iff (h : ∀ x ∈ xs, 0 ≤ x) :
    sumSq xs = xs.sum * xs.sum ↔ xs.countP (· ≠ 0) ≤ 1 := by
  induction xs with
  | nil => simp
  | cons x xs ih =>
    obtain ⟨hx, hxs⟩ := List.forall_mem_cons.mp h
    have hsum := List.sum_nonneg hxs
    have hle := sumSq_le hxs
    rw [sumSq_cons, List.sum_cons]
    by_cases hzero : x = 0
    · rw [hzero, List.countP_cons_of_neg (by simp), ← ih hxs]
      simp
    · have hpos : 0 < x := lt_of_le_of_ne hx (Ne.symm hzero)
      -- next to a positive value nothing else may count
      have hrest : x * x + sumSq xs = (x + xs.sum) * (x + xs.sum) ↔ xs.sum = 0 := by
        constructor
        · intro heq
          have hcross : x * xs.sum = 0 := by nlinarith [mul_nonneg hx hsum]
          exact (mul_eq_zero.mp hcross).resolve_left hzero
        · intro hnone
          have hall := (sum_eq_zero_iff_of_nonneg hxs).mp hnone
          rw [sumSq_eq_zero_iff.mpr hall, hnone, add_zero, add_zero]
      have hcount : xs.countP (· ≠ 0) = 0 ↔ ∀ x ∈ xs, x = 0 := by simp [List.countP_eq_zero]
      rw [hrest, sum_eq_zero_iff_of_nonneg hxs, ← hcount,
        List.countP_cons_of_pos (by simpa using hzero)]
      omega

end Nonneg

end Chronoq.Foundations
