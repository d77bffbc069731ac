import Chronoq.Foundations.Moments

/-! # How many values lie far above the mean

For `n` values with mean `m` and squared deviations `s` in all: no more than `n s / (n c² + s)` of them lie
above `m + c` (`countP_mul_le_of_deviations`), and of nonnegative values fewer than `n / k` lie above
`k m` (`countP_mul_lt_length`). Both are counted through a sum to which every such value adds. -/

namespace Chronoq.Foundations

set_option autoImplicit false

variable {K : Type*} [Field K] [LinearOrder K] [IsStrictOrderedRing K] {xs : List K}

theorem countP_mul_le_sum (h : ∀ x ∈ xs, 0 ≤ x) (b : K) :
    xs.countP (fun x => b < x) * b ≤ xs.sum := by
  induction xs with
  | nil => simp
  | cons x xs ih =>
    obtain ⟨hx, hxs⟩ := List.forall_mem_cons.mp h
    have hrest := ih hxs
    rw [List.sum_cons, List.countP_cons]
    by_cases hlt : b < x
    · rw [if_pos (decide_eq_true hlt), Nat.cast_add, Nat.cast_one]
      linarith
    · rw [if_neg (by simpa using hlt), Nat.add_zero]
      linarith

/-- The sum of the values is not reached, as the ones counted lie above the bound. -/
theorem countP_mul_lt_sum (h : ∀ x ∈ xs, 0 ≤ x) (b : K) (hsum : 0 < xs.sum) :
    xs.countP (fun x => b < x) * b < xs.sum := by
  induction xs with
  | nil => simp at hsum
  | cons x xs ih =>
    obtain ⟨hx, hxs⟩ := List.forall_mem_cons.mp h
    have hrest := countP_mul_le_sum hxs b
    rw [List.sum_cons] at hsum ⊢
    rw [List.countP_cons]
    by_cases hlt : b < x
    · rw [if_pos (decide_eq_true hlt), Nat.cast_add, Nat.cast_one]
      linarith
    · rw [if_neg (by simpa using hlt), Nat.add_zero]
      rcases hx.lt_or_eq with hpos | hzero
      · linarith
      · rw [← hzero, zero_add] at hsum
        have hstrict := ih hxs hsum
        linarith

/-- Fewer than `n / k` values lie above `k` times the mean. -/
theorem countP_mul_lt_length (h : ∀ x ∈ xs, 0 ≤ x) (k : K) (hsum : 0 < xs.sum) :
    xs.countP (fun x => xs.sum / xs.length * k < x) * k < xs.length := by
  have hne : xs ≠ [] := by
    rintro rfl
    simp at hsum
  have hlength : (0 : K) < xs.length := Nat.cast_pos.mpr (List.length_pos_of_ne_nil hne)
  have hmean : 0 < xs.sum / xs.length := div_pos hsum hlength
  have hlt := countP_mul_lt_sum h (xs.sum / xs.length * k) hsum
  refine lt_of_mul_lt_mul_left ?_ hmean.le
  calc xs.sum / xs.length * (xs.countP (fun x => xs.sum / xs.length * k < x) * k)
      = xs.countP (fun x => xs.sum / xs.length * k < x) * (xs.sum / xs.length * k) := by ring
    _ < xs.sum := hlt
    _ = xs.sum / xs.length * xs.length := (div_mul_cancel₀ _ hlength.ne').symm

theorem countP_mul_le_sumSq (ys : List K) {b : K} (hb : 0 ≤ b) :
    ys.countP (fun y => b ≤ y) * (b * b) ≤ sumSq ys := by
  induction ys with
  | nil => simp
  | cons y ys ih =>
    rw [sumSq_cons, List.countP_cons]
    by_cases hle : b ≤ y
    · have hsq := mul_self_le_mul_self hb hle
      rw [if_pos (decide_eq_true hle), Nat.cast_add, Nat.cast_one]
      linarith
    · have hsq := mul_self_nonneg y
      rw [if_neg (by simpa using hle), Nat.add_zero]
      linarith

theorem sumSq_affine (a b : K) (ys : List K) :
    sumSq (ys.map fun y => a * y + b) =
      a * a * sumSq ys + 2 * a * b * ys.sum + ys.length * (b * b) := by
  induction ys with
  | nil => simp
  | cons y ys ih =>
    rw [List.map_cons, sumSq_cons, ih, sumSq_cons, List.sum_cons, List.length_cons, Nat.cast_add,
      Nat.cast_one]
    ring

theorem sum_deviations (m : K) (xs : List K) : (xs.map (· - m)).sum = xs.sum - xs.length * m := by
  induction xs with
  | nil => simp
  | cons x xs ih =>
    rw [List.map_cons, List.sum_cons, ih, List.sum_cons, List.length_cons, Nat.cast_add, Nat.cast_one]
    ring

/-- Values with the mean `m` and squared deviations `s` in all: how many lie above `m + c`. -/
theorem countP_mul_le_of_deviations (hne : xs ≠ []) {c : K} (hc : 0 ≤ c) {s : K}
    (hs : sumSq (xs.map (· - xs.sum / xs.length)) = s) :
    xs.countP (fun x => xs.sum / xs.length + c < x) * (xs.length * (c * c) + s) ≤ xs.length * s := by
  have hlength : (0 : K) < xs.length := Nat.cast_pos.mpr (List.length_pos_of_ne_nil hne)
  have hs0 : 0 ≤ s := hs ▸ sumSq_nonneg _
  have hdev : (xs.map (· - xs.sum / xs.length)).sum = 0 := by
    rw [sum_deviations, mul_div_cancel₀ _ hlength.ne', sub_self]
  -- an affine function of the deviations, which is at least `n c² + s` at every value counted
  have hsum := sumSq_affine (xs.length * c) s (xs.map (· - xs.sum / xs.length))
  rw [hdev, hs, mul_zero, add_zero, List.length_map] at hsum
  have hb : 0 ≤ xs.length * (c * c) + s := by positivity
  have hcount := countP_mul_le_sumSq
    ((xs.map (· - xs.sum / xs.length)).map fun y => xs.length * c * y + s) hb
  rw [hsum, List.countP_map, List.countP_map] at hcount
  have hmono : xs.countP (fun x => decide (xs.sum / xs.length + c < x)) ≤
      xs.countP (((fun y => decide (xs.length * (c * c) + s ≤ y)) ∘ fun y => xs.length * c * y + s) ∘
        fun x => x - xs.sum / xs.length) := by
    apply List.countP_mono_left
    intro x _ hx
    have hdiff : c ≤ x - xs.sum / xs.length := by
      have hlt := of_decide_eq_true hx
      linarith
    have hmul := mul_le_mul_of_nonneg_left hdiff (mul_nonneg hlength.le hc)
    refine decide_eq_true ?_
    linarith
  have hcast := mul_le_mul_of_nonneg_right (Nat.cast_le (α := K).mpr hmono) (mul_nonneg hb hb)
  rcases hb.lt_or_eq with hpos | hzero
  · refine le_of_mul_le_mul_right ?_ hpos
    linarith
  · rw [← hzero, mul_zero]
    positivity

end Chronoq.Foundations
