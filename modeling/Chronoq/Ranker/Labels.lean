import Chronoq.Ranker.Preparation

/-! # The relevance labels of a group

In a group of at most ten records the labels are the ranks; in a larger one the ranks are scaled to
`0 .. 9` and rounded. Either way the labels go down from `min (n - 1) 9` to `0` without a gap.

* `labelAt_eq_round`: both formulas are a rounding of `(n - 1 - i) / (n - 1) * top`.
* `exists_labelAt_eq`: every grade is taken, since the scaled ranks are less than one apart.
* `Graded`: what the labels of a group are like, as one list. -/

namespace Chronoq.Ranker
open Foundations

set_option autoImplicit false

/-- The highest label of a group of `n` records. -/
def topLabel (n : ℕ) : ℕ := min (n - 1) labelMax

/-! ## One formula -/

theorem labelAt_eq_round {n i : ℕ} (hn : 2 ≤ n) (hi : i < n) :
    labelAt n i = roundHalfEven (((n - 1 - i : ℕ) : ℚ) / ((n - 1 : ℕ) : ℚ) * topLabel n) := by
  have hcast : ((n - 1 - i : ℕ) : ℚ) = (n : ℚ) - 1 - i := by
    rw [Nat.cast_sub (by omega), Nat.cast_sub (by omega), Nat.cast_one]
  have hcast' : ((n - 1 : ℕ) : ℚ) = (n : ℚ) - 1 := by rw [Nat.cast_sub (by omega), Nat.cast_one]
  unfold labelAt topLabel labelMax
  split
  · next hsmall =>
    have htop : min (n - 1) 9 = n - 1 := by omega
    have hne : ((n - 1 : ℕ) : ℚ) ≠ 0 := by
      rw [Nat.cast_ne_zero]
      omega
    have hint : ((n - 1 - i : ℕ) : ℚ) = (((n : ℤ) - 1 - i : ℤ) : ℚ) := by
      rw [hcast]
      push_cast
      rfl
    rw [htop, div_mul_cancel₀ _ hne, hint, roundHalfEven_intCast]
  · next hlarge =>
    have htop : min (n - 1) 9 = 9 := by omega
    rw [htop, hcast, hcast']

theorem labelAt_antitone {n i j : ℕ} (hn : 2 ≤ n) (hij : i ≤ j) (hj : j < n) :
    labelAt n j ≤ labelAt n i := by
  rw [labelAt_eq_round hn hj, labelAt_eq_round hn (hij.trans_lt hj)]
  refine roundHalfEven_mono ?_
  have hrank : ((n - 1 - j : ℕ) : ℚ) ≤ ((n - 1 - i : ℕ) : ℚ) := by
    rw [Nat.cast_le]
    omega
  gcongr

theorem labelAt_first {n : ℕ} (hn : 2 ≤ n) : labelAt n 0 = topLabel n := by
  have hne : ((n - 1 : ℕ) : ℚ) ≠ 0 := by
    rw [Nat.cast_ne_zero]
    omega
  rw [labelAt_eq_round hn (by omega), Nat.sub_zero, div_self hne, one_mul]
  exact roundHalfEven_intCast (topLabel n)

theorem labelAt_last {n : ℕ} (hn : 2 ≤ n) : labelAt n (n - 1) = 0 := by
  rw [labelAt_eq_round hn (by omega), Nat.sub_self, Nat.cast_zero, zero_div, zero_mul]
  exact roundHalfEven_intCast 0

/-- Every grade is the label of some position: the one whose scaled rank is nearest. -/
theorem exists_labelAt_eq {n k : ℕ} (hn : 2 ≤ n) (hk : k ≤ topLabel n) :
    ∃ i < n, labelAt n i = k := by
  have htop : topLabel n ≤ n - 1 := Nat.min_le_left _ _
  have hpos : 0 < topLabel n := by
    unfold topLabel labelMax
    omega
  by_cases hexact : topLabel n = n - 1
  · -- as many grades as records: the scaled ranks are the ranks
    refine ⟨n - 1 - k, by omega, ?_⟩
    have hne : ((n - 1 : ℕ) : ℚ) ≠ 0 := by
      rw [Nat.cast_ne_zero]
      omega
    have hrank : n - 1 - (n - 1 - k) = k := by omega
    rw [labelAt_eq_round hn (by omega), hrank, hexact, div_mul_cancel₀ _ hne]
    exact roundHalfEven_intCast k
  · -- fewer grades: the nearest rank to `k` scaled back is less than half a grade away
    obtain ⟨m, hm⟩ : ∃ m, m = n - 1 := ⟨_, rfl⟩
    obtain ⟨j, hj⟩ : ∃ j, j = (2 * (k * m) + topLabel n) / (2 * topLabel n) := ⟨_, rfl⟩
    have hless : topLabel n < m := by omega
    have hmod := Nat.div_add_mod (2 * (k * m) + topLabel n) (2 * topLabel n)
    have hrest := Nat.mod_lt (2 * (k * m) + topLabel n) (show 0 < 2 * topLabel n by omega)
    rw [← hj] at hmod
    have hbelow : 2 * (topLabel n * j) ≤ 2 * (k * m) + topLabel n := by
      rw [← hmod, mul_assoc]
      omega
    have habove : 2 * (k * m) < 2 * (topLabel n * j) + topLabel n := by
      rw [mul_assoc] at hmod
      omega
    have hjm : j ≤ m := by
      have hkm : k * m ≤ topLabel n * m := Nat.mul_le_mul_right m hk
      by_contra hgt
      have hstep : topLabel n * (m + 1) ≤ topLabel n * j := Nat.mul_le_mul_left _ (by omega)
      rw [Nat.mul_add, Nat.mul_one] at hstep
      omega
    refine ⟨m - j, by omega, ?_⟩
    have hrank : n - 1 - (m - j) = j := by omega
    rw [labelAt_eq_round hn (by omega), hrank, ← hm]
    have hmpos : (0 : ℚ) < m := by
      rw [Nat.cast_pos]
      omega
    refine roundHalfEven_eq ?_ ?_
    · rw [div_mul_eq_mul_div, lt_div_iff₀ hmpos]
      have hcast : (2 * (k * m) : ℚ) < 2 * (topLabel n * j) + topLabel n := by exact_mod_cast habove
      have hcast' : (topLabel n : ℚ) < m := by exact_mod_cast hless
      push_cast
      linarith
    · rw [div_mul_eq_mul_div, div_lt_iff₀ hmpos]
      have hcast : (2 * (topLabel n * j) : ℚ) ≤ 2 * (k * m) + topLabel n := by exact_mod_cast hbelow
      have hcast' : (topLabel n : ℚ) < m := by exact_mod_cast hless
      push_cast
      linarith

/-! ## The labels of a group as a list -/

/-- Labels of `n` records in ascending `actual_ms`: they go down from the highest one to zero, and no
grade is left out. -/
structure Graded (n : ℕ) (labels : List ℤ) : Prop where
  length : labels.length = n
  nonincreasing : labels.Pairwise (· ≥ ·)
  bounded : ∀ label ∈ labels, 0 ≤ label ∧ label ≤ topLabel n
  first : labels.head? = some (topLabel n : ℤ)
  last : labels.getLast? = some 0
  gapFree : ∀ k ≤ topLabel n, (k : ℤ) ∈ labels
  strict : n ≤ 10 → labels.Pairwise (· > ·)

theorem groupLabels_length (n : ℕ) : (groupLabels n).length = n := by
  rw [groupLabels, List.length_map, List.length_range]

theorem groupLabels_getElem? {n i : ℕ} (hi : i < n) : (groupLabels n)[i]? = some (labelAt n i) := by
  rw [groupLabels, List.getElem?_map, List.getElem?_range hi, Option.map_some]

theorem graded_groupLabels {n : ℕ} (hn : 2 ≤ n) : Graded n (groupLabels n) where
  length := groupLabels_length n
  nonincreasing := by
    rw [groupLabels, List.pairwise_map]
    refine List.Pairwise.imp_of_mem ?_ List.pairwise_lt_range
    intro i j _ hj hij
    exact labelAt_antitone hn hij.le (List.mem_range.mp hj)
  bounded := by
    intro label hlabel
    obtain ⟨i, hi, rfl⟩ := List.mem_map.mp hlabel
    have hin := List.mem_range.mp hi
    constructor
    · rw [← labelAt_last hn]
      exact labelAt_antitone hn (by omega) (by omega)
    · rw [← labelAt_first hn]
      exact labelAt_antitone hn (Nat.zero_le i) hin
  first := by rw [List.head?_eq_getElem?, groupLabels_getElem? (by omega), labelAt_first hn]
  last := by
    rw [List.getLast?_eq_getElem?, groupLabels_length, groupLabels_getElem? (by omega),
      labelAt_last hn]
  gapFree := by
    intro k hk
    obtain ⟨i, hi, hlabel⟩ := exists_labelAt_eq hn hk
    rw [← hlabel]
    exact List.mem_map_of_mem (List.mem_range.mpr hi)
  strict := by
    intro hten
    rw [groupLabels, List.pairwise_map]
    refine List.Pairwise.imp ?_ List.pairwise_lt_range
    intro i j hij
    simp only [labelAt, labelMax]
    omega

/-! ## The labels of a training batch -/

theorem sortedMembers_ascending (records : List TaskRecord) (gid : String) :
    (sortedMembers records gid).Pairwise fun a b => a.actualMs ≤ b.actualMs :=
  List.pairwise_insertionSort _ _

/-- The group's rows are in ascending `actual_ms`, its labels are graded, and of two records the shorter
one never has the lower label. -/
structure LabelledByDuration (group : List TaskRecord) (labels : List ℤ) : Prop where
  ascending : group.Pairwise fun (a b : TaskRecord) => a.actualMs ≤ b.actualMs
  graded : Graded group.length labels
  agrees : ∀ (i j : ℕ) (a b : TaskRecord) (label label' : ℤ), group[i]? = some a → group[j]? = some b →
    labels[i]? = some label → labels[j]? = some label' → a.actualMs < b.actualMs → label' ≤ label

theorem labelledByDuration {group : List TaskRecord} (htwo : 2 ≤ group.length)
    (hasc : group.Pairwise fun a b => a.actualMs ≤ b.actualMs) :
    LabelledByDuration group (groupLabels group.length) where
  ascending := hasc
  graded := graded_groupLabels htwo
  agrees := by
    intro i j a b label label' ha hb hlabel hlabel' hlt
    obtain ⟨hi, rfl⟩ := List.getElem?_eq_some_iff.mp ha
    obtain ⟨hj, rfl⟩ := List.getElem?_eq_some_iff.mp hb
    have hij : i ≤ j := by
      by_contra hji
      have hle := List.pairwise_iff_getElem.mp hasc j i hj hi (not_le.mp hji)
      exact absurd hlt (not_lt.mpr hle)
    rw [groupLabels_getElem? hi] at hlabel
    rw [groupLabels_getElem? hj] at hlabel'
    cases hlabel
    cases hlabel'
    exact labelAt_antitone htwo hij hj

theorem two_le_of_mem_rowRecords {records : List TaskRecord} {group : List TaskRecord}
    (h : group ∈ rowRecords records) : 2 ≤ group.length :=
  two_le_of_mem_groupSizes (List.mem_map_of_mem h)

theorem ascending_of_mem_rowRecords {records : List TaskRecord} {group : List TaskRecord}
    (h : group ∈ rowRecords records) : group.Pairwise fun a b => a.actualMs ≤ b.actualMs := by
  obtain ⟨gid, -, rfl⟩ := List.mem_map.mp h
  exact sortedMembers_ascending _ gid

/-- For groups of every size, and for the label array that `_prepare_data` returns. -/
theorem labels_graded_by_duration :
    (∀ n, 2 ≤ n → Graded n (groupLabels n)) ∧
    ∀ (extractor : FeatureExtractor) (encoder : Encoder) (records : List TaskRecord)
      (rebuildEncoder : Bool) (d : Prepared),
      (prepareData extractor encoder records rebuildEncoder).2 = .ok d →
        d.y = ((rowRecords records).map fun group => groupLabels group.length).flatten ∧
        ∀ group ∈ rowRecords records, LabelledByDuration group (groupLabels group.length) := by
  refine ⟨fun n hn => graded_groupLabels hn, ?_⟩
  intro extractor encoder records rebuildEncoder d hd
  obtain ⟨fdicts, x, -, -, rfl⟩ := exists_of_prepareData_ok hd
  refine ⟨?_, fun group hgroup => ?_⟩
  · show rowLabels records = _
    rw [rowLabels, groupSizes, List.map_map]
    rfl
  · exact labelledByDuration (two_le_of_mem_rowRecords hgroup) (ascending_of_mem_rowRecords hgroup)

example : groupLabels 12 = [9, 8, 7, 7, 6, 5, 4, 3, 2, 2, 1, 0] := by decide +kernel

end Chronoq.Ranker
