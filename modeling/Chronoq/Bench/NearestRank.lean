import Chronoq.Foundations.OrderStatistics
import Chronoq.Ranker.Values

/-! # `metrics/jct.py`: nearest-rank percentiles

`percentileJct` reads one entry of the sorted times. For a nonempty list and `p` in `[0, 100]` its index
is in the list, and the entry `v` there is the least of the times that are at or above `p` percent of all
of them, because more than `i` times are at most `w` exactly when the sorted entry at `i` is
(`lt_countP_le_iff`). -/

namespace Chronoq.Bench
open Foundations

set_option autoImplicit false

/-- `max(0, math.ceil(p / 100.0 * n) - 1)` -/
def nearestRankIndex (n : ℕ) (p : ℚ) : ℕ := (max 0 (⌈p / 100 * n⌉ - 1)).toNat

def percentileJct (completionTimesMs : List ℚ) (p : ℚ) : Except PyException ℚ :=
  if completionTimesMs = [] then .ok 0
  else
    let sortedMs := completionTimesMs.insertionSort (· ≤ ·)
    match sortedMs[nearestRankIndex sortedMs.length p]? with
    | some v => .ok v
    | none => .error (.raised "IndexError")

def p50Jct (completionTimesMs : List ℚ) : Except PyException ℚ := percentileJct completionTimesMs 50

def p95Jct (completionTimesMs : List ℚ) : Except PyException ℚ := percentileJct completionTimesMs 95

def p99Jct (completionTimesMs : List ℚ) : Except PyException ℚ := percentileJct completionTimesMs 99

/-! ## The index -/

/-- Among positive counts, those above the index are those of at least `p` percent. -/
theorem nearestRankIndex_lt_iff {n count : ℕ} (p : ℚ) (hcount : 0 < count) :
    nearestRankIndex n p < count ↔ p / 100 * n ≤ count := by
  have hceil : p / 100 * (n : ℚ) ≤ (count : ℚ) ↔ ⌈p / 100 * (n : ℚ)⌉ ≤ (count : ℤ) := by
    rw [Int.ceil_le, Int.cast_natCast]
  rw [hceil, nearestRankIndex]
  omega

theorem nearestRankIndex_lt {n : ℕ} {p : ℚ} (hn : 0 < n) (hp : p ≤ 100) : nearestRankIndex n p < n :=
  (nearestRankIndex_lt_iff p hn).mpr (mul_le_of_le_one_left n.cast_nonneg (by linarith))

theorem nearestRankIndex_mono {n : ℕ} {p p' : ℚ} (h : p ≤ p') :
    nearestRankIndex n p ≤ nearestRankIndex n p' := by
  have hceil : ⌈p / 100 * (n : ℚ)⌉ ≤ ⌈p' / 100 * (n : ℚ)⌉ := by
    apply Int.ceil_le_ceil
    gcongr
  rw [nearestRankIndex, nearestRankIndex]
  omega

/-! ## The percentile -/

section Percentile
variable {times times' : List ℚ} {p p' v v' : ℚ}

/-- The times that at least `p` percent of all times do not exceed. -/
def CoversPercent (times : List ℚ) (p w : ℚ) : Prop :=
  w ∈ times ∧ p / 100 * times.length ≤ times.countP fun x => x ≤ w

theorem percentileJct_eq_ok (hne : times ≠ []) (hp : p ≤ 100) :
    ∃ hi : nearestRankIndex times.length p < (times.insertionSort (· ≤ ·)).length,
      percentileJct times p = .ok (times.insertionSort (· ≤ ·))[nearestRankIndex times.length p] := by
  have hi : nearestRankIndex times.length p < (times.insertionSort (· ≤ ·)).length := by
    rw [List.length_insertionSort]
    exact nearestRankIndex_lt (List.length_pos_of_ne_nil hne) hp
  refine ⟨hi, ?_⟩
  rw [percentileJct, if_neg hne]
  simp only [List.length_insertionSort, List.getElem?_eq_getElem hi]

theorem sorted_le_iff_covers {w : ℚ} (hw : w ∈ times)
    (hi : nearestRankIndex times.length p < (times.insertionSort (· ≤ ·)).length) :
    (times.insertionSort (· ≤ ·))[nearestRankIndex times.length p] ≤ w ↔
      p / 100 * times.length ≤ times.countP fun x => x ≤ w := by
  have hpos : 0 < times.countP fun x => x ≤ w := List.countP_pos_iff.mpr ⟨w, hw, by simp⟩
  have hcount : (times.insertionSort (· ≤ ·)).countP (fun x => x ≤ w) =
      times.countP fun x => x ≤ w := (List.perm_insertionSort _ times).countP_eq _
  rw [← lt_countP_le_iff (List.pairwise_insertionSort _ times) hi, hcount,
    nearestRankIndex_lt_iff p hpos]

theorem percentileJct_least (hne : times ≠ []) (hp : p ≤ 100) :
    ∃ v, percentileJct times p = .ok v ∧ IsLeast {w | CoversPercent times p w} v := by
  obtain ⟨hi, hok⟩ := percentileJct_eq_ok hne hp
  have hmem := getElem_insertionSort_mem hi
  refine ⟨_, hok, ⟨hmem, (sorted_le_iff_covers hmem hi).mp le_rfl⟩, fun w hw => ?_⟩
  exact (sorted_le_iff_covers hw.1 hi).mpr hw.2

theorem percentileJct_perm (h : times.Perm times') (p : ℚ) :
    percentileJct times p = percentileJct times' p := by
  have hnil : times = [] ↔ times' = [] := by
    rw [← List.length_eq_zero_iff, ← List.length_eq_zero_iff, h.length_eq]
  rw [percentileJct, percentileJct, insertionSort_congr h]
  simp only [hnil]

theorem percentileJct_mono (hne : times ≠ []) (hpp : p ≤ p') (hp' : p' ≤ 100)
    (hv : percentileJct times p = .ok v) (hv' : percentileJct times p' = .ok v') : v ≤ v' := by
  obtain ⟨hi, hok⟩ := percentileJct_eq_ok hne (hpp.trans hp')
  obtain ⟨hi', hok'⟩ := percentileJct_eq_ok hne hp'
  rw [hok] at hv
  rw [hok'] at hv'
  cases hv
  cases hv'
  exact (List.pairwise_insertionSort (· ≤ ·) times).rel_get_of_le
    (a := ⟨_, hi⟩) (b := ⟨_, hi'⟩) (nearestRankIndex_mono hpp)

end Percentile

theorem percentileJct_nearest_rank (times : List ℚ) (hne : times ≠ []) :
    (∀ p, 0 ≤ p → p ≤ 100 → nearestRankIndex times.length p < times.length ∧
      ∃ v, percentileJct times p = .ok v ∧ IsLeast {w | CoversPercent times p w} v) ∧
    (∃ v, percentileJct times 0 = .ok v ∧ IsLeast {w | w ∈ times} v) ∧
    (∀ times', times.Perm times' → ∀ p, percentileJct times' p = percentileJct times p) ∧
    (∀ p p' v v', 0 ≤ p → p ≤ p' → p' ≤ 100 → percentileJct times p = .ok v →
      percentileJct times p' = .ok v' → v ≤ v') ∧
    ∃ v50 v95 v99, p50Jct times = .ok v50 ∧ p95Jct times = .ok v95 ∧ p99Jct times = .ok v99 ∧
      v50 ≤ v95 ∧ v95 ≤ v99 := by
  refine ⟨fun p _ hp => ⟨nearestRankIndex_lt (List.length_pos_of_ne_nil hne) hp,
    percentileJct_least hne hp⟩, ?_, fun times' hperm p => (percentileJct_perm hperm p).symm,
    fun p p' v v' _ hpp hp' hv hv' => percentileJct_mono hne hpp hp' hv hv', ?_⟩
  · -- at least none of the values is asked for, so every time qualifies
    obtain ⟨v, hv, hleast⟩ := percentileJct_least (p := 0) hne (by norm_num)
    refine ⟨v, hv, hleast.1.1, fun w hw => hleast.2 ⟨hw, ?_⟩⟩
    rw [zero_div, zero_mul]
    exact Nat.cast_nonneg _
  · obtain ⟨v50, h50, -⟩ := percentileJct_least (p := 50) hne (by norm_num)
    obtain ⟨v95, h95, -⟩ := percentileJct_least (p := 95) hne (by norm_num)
    obtain ⟨v99, h99, -⟩ := percentileJct_least (p := 99) hne (by norm_num)
    exact ⟨v50, v95, v99, h50, h95, h99,
      percentileJct_mono hne (by norm_num) (by norm_num) h50 h95,
      percentileJct_mono hne (by norm_num) (by norm_num) h95 h99⟩

theorem percentileJct_nearest_rank_tied :
    ∃ v, percentileJct [7, 3, 7] 0 = .ok v ∧ IsLeast {w | w ∈ ([7, 3, 7] : List ℚ)} v :=
  (percentileJct_nearest_rank [7, 3, 7] (by decide)).2.1

end Chronoq.Bench
