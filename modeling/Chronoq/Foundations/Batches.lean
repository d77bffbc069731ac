import Mathlib

/-! # Consecutive batches of a fixed size

The `i`-th of `n` items is in the batch `i / k`. All batches but the last are full, so a batch has at least
`m` items, for `m` up to `k`, exactly if it is one of the first `(n + k - m) / k` (`le_countP_batch_iff`).
`n / k * k` items are in full batches (`batch_succ`). -/

namespace Chronoq.Foundations

set_option autoImplicit false

variable {k m n b : ℕ}

theorem countP_range_batch (hk : 0 < k) (n b : ℕ) :
    (List.range n).countP (fun i => i / k = b) = min k (n - b * k) := by
  induction n with
  | zero => simp
  | succ n ih =>
    rw [List.range_succ, List.countP_append, ih, List.countP_singleton]
    have hbatch : n / k = b ↔ b * k ≤ n ∧ n < b * k + k := by
      rw [Nat.div_eq_iff hk, Nat.le_sub_one_iff_lt (by omega), Nat.add_comm]
    by_cases h : n / k = b
    · rw [if_pos (by simpa using h)]
      have hbounds := hbatch.mp h
      omega
    · rw [if_neg (by simpa using h)]
      have hbounds := mt hbatch.mpr h
      omega

theorem countP_zipIdx_batch {α : Type*} (hk : 0 < k) (xs : List α) (b : ℕ) :
    xs.zipIdx.countP (fun x => x.2 / k = b) = min k (xs.length - b * k) := by
  rw [← countP_range_batch hk, List.range_eq_range', ← List.zipIdx_map_snd 0 xs, List.countP_map]
  rfl

theorem le_countP_batch_iff {α : Type*} (hm : 1 ≤ m) (hmk : m ≤ k) (xs : List α) (b : ℕ) :
    m ≤ xs.zipIdx.countP (fun x => x.2 / k = b) ↔ b < (xs.length + k - m) / k := by
  rw [countP_zipIdx_batch (by omega), ← Nat.succ_le_iff, Nat.le_div_iff_mul_le (by omega),
    Nat.succ_mul]
  omega

/-- One item more fills the last batch, or leaves it with room. -/
theorem batch_succ (hk : 0 < k) (n : ℕ) :
    (n % k + 1 = k ∧ (n + 1) % k = 0 ∧ (n + 1) / k * k = n + 1) ∨
      (n % k + 1 < k ∧ (n + 1) % k = n % k + 1 ∧ (n + 1) / k = n / k) := by
  have hsplit := Nat.mod_add_div n k
  rcases Nat.lt_or_eq_of_le (Nat.succ_le_of_lt (Nat.mod_lt n hk)) with hroom | hfull
  · obtain ⟨hdiv, hmod⟩ := (Nat.div_mod_unique (a := n + 1) (d := n / k) (c := n % k + 1) hk).mpr
      ⟨by omega, hroom⟩
    exact .inr ⟨hroom, hmod, hdiv⟩
  · have hmul : n + 1 = k * (n / k + 1) := by
      rw [Nat.mul_add, Nat.mul_one]
      omega
    have hdvd : k ∣ n + 1 := ⟨_, hmul⟩
    exact .inl ⟨hfull, Nat.mod_eq_zero_of_dvd hdvd, Nat.div_mul_cancel hdvd⟩

end Chronoq.Foundations
