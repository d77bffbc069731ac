import Mathlib

/-! # Bounded windows and order statistics over `ℚ`

Exact-arithmetic versions of what the program takes from the standard library and from numpy:

* `pushBounded w buf x`: appending to a `deque` of maximal length `w`, which drops from the left, so
  that the buffer holds the last `w` values appended (`pushBounded_rtake`).
* `mean`, and `percentile q`: linear interpolation at position `q / 100 * (n - 1)` of the sorted
  values, numpy's default method.
* `roundHalfEven`: rounding to the nearest integer, halves to the even one, which is monotone.
-/

namespace Chronoq.Foundations

set_option autoImplicit false

/-! ## A buffer of bounded length -/

section PushBounded
variable {α : Type*}

/-- The buffer `buf` of maximal length `w` after appending `x`: the last `w` of `buf ++ [x]`. -/
def pushBounded (w : ℕ) (buf : List α) (x : α) : List α :=
  (buf ++ [x]).drop ((buf ++ [x]).length - w)

@[simp] theorem pushBounded_zero (buf : List α) (x : α) : pushBounded 0 buf x = [] := by
  simp [pushBounded]

/-- A buffer with room for at least one value ends with the value appended last; what is in front of
it does not depend on that value. -/
theorem pushBounded_eq_append {w : ℕ} (hw : 0 < w) (buf : List α) (x : α) :
    pushBounded w buf x = buf.drop (buf.length + 1 - w) ++ [x] := by
  have hle : buf.length + 1 - w ≤ buf.length := by omega
  simp only [pushBounded, List.length_append, List.length_singleton]
  rw [List.drop_append_of_le_length hle]

/-- Keeping the last `w` values can be done one value at a time. -/
theorem pushBounded_rtake (w : ℕ) (l : List α) (x : α) :
    pushBounded w (l.rtake w) x = (l ++ [x]).rtake w := by
  have hdrop : l.drop (l.length - w) ++ [x] = (l ++ [x]).drop (l.length - w) :=
    (List.drop_append_of_le_length (Nat.sub_le _ _)).symm
  rw [pushBounded, List.rtake, List.rtake, hdrop, List.length_drop, List.drop_drop]
  congr 1
  simp only [List.length_append, List.length_singleton]
  omega

end PushBounded

/-! ## Mean and percentile -/

/-- The arithmetic mean; `0` for the empty list. -/
def mean (xs : List ℚ) : ℚ := xs.sum / xs.length

@[simp] theorem mean_nil : mean [] = 0 := by simp [mean]

theorem mean_append_singleton (xs : List ℚ) (x : ℚ) :
    mean (xs ++ [x]) = (xs.sum + x) / (xs.length + 1) := by
  simp [mean]

/-- The mean of a list determines its last value from the others. -/
theorem mean_append_singleton_inj (xs : List ℚ) (x y : ℚ) :
    mean (xs ++ [x]) = mean (xs ++ [y]) ↔ x = y := by
  have hpos : (0 : ℚ) < xs.length + 1 := by positivity
  rw [mean_append_singleton, mean_append_singleton, div_left_inj' hpos.ne', add_right_inj]

/-- One value of a list changes the mean unless it stays the same. -/
theorem mean_append_cons_inj (xs ys : List ℚ) (x y : ℚ) :
    mean (xs ++ x :: ys) = mean (xs ++ y :: ys) ↔ x = y := by
  have hpos : (0 : ℚ) < ((xs ++ x :: ys).length : ℕ) := Nat.cast_pos.mpr (by simp)
  have hlength : (xs ++ y :: ys).length = (xs ++ x :: ys).length := by simp
  rw [mean, mean, hlength, div_left_inj' hpos.ne', List.sum_append, List.sum_append, List.sum_cons,
    List.sum_cons, add_right_inj, add_left_inj]

theorem mean_map_add {α : Type*} (f g : α → ℚ) (l : List α) :
    mean (l.map fun x => f x + g x) = mean (l.map f) + mean (l.map g) := by
  rw [mean, mean, mean, List.sum_map_add, List.length_map, List.length_map, List.length_map, add_div]

/-- The mean lies between any bounds of the values. -/
theorem mean_between {a b : ℚ} {xs : List ℚ} (hne : xs ≠ []) (h : ∀ x ∈ xs, a ≤ x ∧ x ≤ b) :
    a ≤ mean xs ∧ mean xs ≤ b := by
  have hsum : xs.length * a ≤ xs.sum ∧ xs.sum ≤ xs.length * b := by
    have hle := List.card_nsmul_le_sum xs a fun x hx => (h x hx).1
    have hge := List.sum_le_card_nsmul xs b fun x hx => (h x hx).2
    rw [nsmul_eq_mul] at hle hge
    exact ⟨hle, hge⟩
  have hpos : (0 : ℚ) < xs.length := Nat.cast_pos.mpr (List.length_pos_of_ne_nil hne)
  rw [mean, le_div_iff₀ hpos, div_le_iff₀ hpos, mul_comm a, mul_comm b]
  exact hsum

theorem mean_mem_Icc {a b : ℚ} {xs : List ℚ} (ha : a ≤ 0) (hb : 0 ≤ b)
    (h : ∀ x ∈ xs, a ≤ x ∧ x ≤ b) : a ≤ mean xs ∧ mean xs ≤ b := by
  rcases eq_or_ne xs [] with rfl | hne
  · rw [mean_nil]
    exact ⟨ha, hb⟩
  · exact mean_between hne h

theorem mean_eq_zero_iff {xs : List ℚ} (h : ∀ x ∈ xs, 0 ≤ x) : mean xs = 0 ↔ ∀ x ∈ xs, x = 0 := by
  rw [mean, div_eq_zero_iff, Nat.cast_eq_zero, List.length_eq_zero_iff]
  constructor
  · rintro (hsum | rfl)
    · exact fun x hx => List.all_zero_of_le_zero_le_of_sum_eq_zero h hsum hx
    · intro x hx
      cases hx
  · exact fun hall => .inl (List.sum_eq_zero hall)

theorem mean_pos {xs : List ℚ} (hne : xs ≠ []) (h : ∀ x ∈ xs, 0 < x) : 0 < mean xs :=
  div_pos (List.sum_pos xs h hne) (Nat.cast_pos.mpr (List.length_pos_of_ne_nil hne))

/-- Linear interpolation at position `q / 100 * (n - 1)` of the sorted values; `0` for no values. -/
def percentile (q : ℚ) (xs : List ℚ) : ℚ :=
  let sorted := xs.insertionSort (· ≤ ·)
  let position := q / 100 * (xs.length - 1)
  let low := ⌊position⌋.toNat
  let below := sorted.getD low 0
  let above := sorted.getD (low + 1) below
  below + (position - low) * (above - below)

/-! ## Rounding -/

section Rounding
variable {K : Type*} [Field K] [LinearOrder K] [FloorRing K]

/-- The nearest integer, and the even one of two equally near. -/
def roundHalfEven (x : K) : ℤ :=
  let low := ⌊x⌋
  let rest := x - low
  if rest < 1 / 2 then low
  else if 1 / 2 < rest then low + 1
  else if low % 2 = 0 then low else low + 1

/-- The rounded value is one of the two integers around `x`, and no further away than half. -/
theorem roundHalfEven_cases (x : K) :
    (roundHalfEven x = ⌊x⌋ ∧ x - ⌊x⌋ ≤ 1 / 2) ∨ (roundHalfEven x = ⌊x⌋ + 1 ∧ 1 / 2 ≤ x - ⌊x⌋) := by
  unfold roundHalfEven
  dsimp only
  split
  · next hbelow => exact .inl ⟨rfl, hbelow.le⟩
  · next hnot =>
    split
    · next habove => exact .inr ⟨rfl, habove.le⟩
    · next hnot' =>
      split
      · exact .inl ⟨rfl, not_lt.mp hnot'⟩
      · exact .inr ⟨rfl, not_lt.mp hnot⟩

variable [IsStrictOrderedRing K]

@[simp] theorem roundHalfEven_intCast (n : ℤ) : roundHalfEven (n : K) = n := by
  simp [roundHalfEven]

theorem roundHalfEven_le (x : K) : (roundHalfEven x : K) ≤ x + 1 / 2 := by
  obtain ⟨hround, -⟩ | ⟨hround, hrest⟩ := roundHalfEven_cases x
  · have hfloor := Int.floor_le x
    rw [hround]
    linarith
  · rw [hround]
    push_cast
    linarith

theorem le_roundHalfEven (x : K) : x - 1 / 2 ≤ roundHalfEven x := by
  obtain ⟨hround, hrest⟩ | ⟨hround, -⟩ := roundHalfEven_cases x
  · rw [hround]
    linarith
  · have hfloor := Int.lt_floor_add_one x
    rw [hround]
    push_cast
    linarith

/-- The only integer nearer than half is the rounded value. -/
theorem roundHalfEven_eq {x : K} {n : ℤ} (hlow : (n : K) - 1 / 2 < x) (hhigh : x < n + 1 / 2) :
    roundHalfEven x = n := by
  have hle := roundHalfEven_le x
  have hge := le_roundHalfEven x
  have hbelow : roundHalfEven x < n + 1 := by
    have h : (roundHalfEven x : K) < ((n + 1 : ℤ) : K) := by
      push_cast
      linarith
    exact_mod_cast h
  have habove : n - 1 < roundHalfEven x := by
    have h : ((n - 1 : ℤ) : K) < roundHalfEven x := by
      push_cast
      linarith
    exact_mod_cast h
  omega

/-- Half below an even integer is rounded up to it. -/
theorem roundHalfEven_sub_half {n : ℤ} (h : Even n) : roundHalfEven ((n : K) - 1 / 2) = n := by
  have hfloor : ⌊(n : K) - 1 / 2⌋ = n - 1 := by
    rw [Int.floor_eq_iff]
    push_cast
    constructor <;> linarith
  have hodd : ¬ (n - 1) % 2 = 0 := by
    obtain ⟨m, rfl⟩ := h
    omega
  have hrest : (n : K) - 1 / 2 - ((n - 1 : ℤ) : K) = 1 / 2 := by
    push_cast
    ring
  rw [roundHalfEven, hfloor, hrest]
  simp [hodd]

theorem roundHalfEven_mono : Monotone (roundHalfEven (K := K)) := by
  intro x y hxy
  by_contra hlt
  have hstep : roundHalfEven y + 1 ≤ roundHalfEven x := not_le.mp hlt
  have hstep' : (roundHalfEven y : K) + 1 ≤ roundHalfEven x := by exact_mod_cast hstep
  have hx := roundHalfEven_le x
  have hy := le_roundHalfEven y
  -- two roundings a step apart leave no room between `x` and `y`
  have heq : x = y := le_antisymm hxy (by linarith)
  rw [heq] at hlt
  exact hlt le_rfl

end Rounding

end Chronoq.Foundations
