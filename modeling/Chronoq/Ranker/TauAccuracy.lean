import Chronoq.Ranker.PairMetrics

/-! # Tau and pairwise accuracy measure the same

Tau is a mean of ratios, one for each group, and accuracy one ratio of totals. Where every pair of a
group is comparable and all groups are of one size, both count the same pairs over the same number of
pairs, and tau is twice the accuracy minus one. With no group at all tau is `0` and accuracy `1`.

Whatever the groups, neither metric depends on the order of the rows inside them, and each stays in its
range. -/

namespace Chronoq.Ranker
open Foundations

set_option autoImplicit false

/-! ## Groups of one size with distinct labels -/

theorem comparableCount_of_distinct {rows : List ScoredRow} (h : (rows.map Prod.snd).Nodup) :
    (comparableCount rows : ℚ) = pairTotal rows.length := by
  rw [← length_pairsOf_eq, Nat.cast_inj]
  refine List.countP_eq_length.mpr fun p hp => ?_
  rw [decide_eq_true_eq]
  exact forall_mem_pairsOf_iff.mpr (List.pairwise_map.mp h) p hp

/-- Every pair of every group is comparable, and each group has `total` of them. -/
def AllComparable (total : ℚ) (groups : List (List ScoredRow)) : Prop :=
  ∀ rows ∈ groups, (comparableCount rows : ℚ) = total ∧ pairTotal rows.length = total

section AllComparable
variable {total : ℚ} {groups : List (List ScoredRow)}

theorem countOver_comparableCount (h : AllComparable total groups) :
    (countOver comparableCount groups : ℚ) = groups.length * total := by
  induction groups with
  | nil => simp [countOver]
  | cons rows groups ih =>
    obtain ⟨⟨hcomparable, -⟩, hrest⟩ := List.forall_mem_cons.mp h
    rw [countOver, List.map_cons, List.sum_cons, Nat.cast_add, hcomparable, ← countOver, ih hrest,
      List.length_cons]
    push_cast
    ring

theorem sum_groupTau (h : AllComparable total groups) (hpos : 0 < total) :
    (groups.map groupTau).sum =
      2 * (countOver concordantCount groups : ℚ) / total - groups.length := by
  induction groups with
  | nil => simp [countOver]
  | cons rows groups ih =>
    obtain ⟨⟨hcomparable, htotal⟩, hrest⟩ := List.forall_mem_cons.mp h
    have hcount : countOver concordantCount (rows :: groups) =
        concordantCount rows + countOver concordantCount groups := by
      rw [countOver, List.map_cons, List.sum_cons]
      rfl
    rw [List.map_cons, List.sum_cons, ih hrest, hcount, groupTau, hcomparable, htotal,
      List.length_cons]
    push_cast
    field_simp
    ring

theorem mean_groupTau_eq (h : AllComparable total groups) (hpos : 0 < total) (hne : groups ≠ []) :
    mean (groups.map groupTau) =
      2 * accuracyOf (countOver concordantCount groups) (countOver comparableCount groups) - 1 := by
  have hlength : (0 : ℚ) < groups.length := Nat.cast_pos.mpr (List.length_pos_iff.mpr hne)
  have hcomparable := countOver_comparableCount h
  have hpairs : 0 < countOver comparableCount groups := by
    have hcast : (0 : ℚ) < countOver comparableCount groups := by
      rw [hcomparable]
      exact mul_pos hlength hpos
    exact_mod_cast hcast
  rw [mean, sum_groupTau h hpos, accuracyOf, if_pos hpairs, hcomparable, List.length_map]
  field_simp

end AllComparable

section Groups
variable {scores labels scores' labels' : List ℚ} {groupSizes : List ℕ}

theorem map_snd_scoredGroups (h : scores.length = labels.length) (groupSizes : List ℕ) :
    (scoredGroups scores labels groupSizes).map (List.map Prod.snd) =
      groupSlices labels groupSizes := by
  rw [scoredGroups, ← groupSlices_map, List.map_snd_zip h.ge]

theorem length_of_mem_scoredGroups (hs : groupSizes.sum ≤ scores.length)
    (hl : groupSizes.sum ≤ labels.length) {n : ℕ} (hn : ∀ size ∈ groupSizes, size = n) :
    ∀ rows ∈ scoredGroups scores labels groupSizes, rows.length = n := by
  have hlength : groupSizes.sum ≤ (scores.zip labels).length := by
    rw [List.length_zip]
    omega
  intro rows hrows
  refine hn _ ?_
  rw [← map_length_groupSlices hlength]
  exact List.mem_map_of_mem hrows

theorem kendallTau_eq_accuracy {n : ℕ} (htwo : 2 ≤ n) (hne : groupSizes ≠ [])
    (hn : ∀ size ∈ groupSizes, size = n) (hs : scores.length = groupSizes.sum)
    (hl : labels.length = groupSizes.sum)
    (hdistinct : ∀ slice ∈ groupSlices labels groupSizes, slice.Nodup) :
    kendallTauGrouped scores labels groupSizes =
      2 * pairwiseAccuracyGrouped scores labels groupSizes - 1 := by
  have hlength := length_of_mem_scoredGroups hs.ge hl.ge hn
  have hgroups : scoredGroups scores labels groupSizes ≠ [] := by
    obtain ⟨size, sizes, rfl⟩ := List.exists_cons_of_ne_nil hne
    exact List.cons_ne_nil _ _
  have hall : AllComparable (pairTotal n) (scoredGroups scores labels groupSizes) := by
    intro rows hrows
    have hslice : rows.map Prod.snd ∈ groupSlices labels groupSizes := by
      rw [← map_snd_scoredGroups (hs.trans hl.symm) groupSizes]
      exact List.mem_map_of_mem hrows
    rw [comparableCount_of_distinct (hdistinct _ hslice), hlength rows hrows]
    exact ⟨rfl, rfl⟩
  have hfilter : ((scoredGroups scores labels groupSizes).filter fun rows => 2 ≤ rows.length) =
      scoredGroups scores labels groupSizes := by
    refine List.filter_eq_self.mpr fun rows hrows => ?_
    rw [hlength rows hrows]
    exact decide_eq_true htwo
  rw [kendallTauGrouped_eq hs.ge hl.ge, hfilter, pairwiseAccuracyGrouped_eq,
    mean_groupTau_eq hall (pairTotal_pos htwo) hgroups]

/-! ## The order of the rows inside a group -/

theorem countOver_perm {count : List ScoredRow → ℕ}
    (hcount : ∀ rows rows', rows.Perm rows' → count rows = count rows')
    {groups groups' : List (List ScoredRow)} (h : List.Forall₂ List.Perm groups groups') :
    countOver count groups = countOver count groups' := by
  induction h with
  | nil => rfl
  | cons hrows hrest ih =>
    rw [countOver, countOver, List.map_cons, List.map_cons, List.sum_cons, List.sum_cons,
      hcount _ _ hrows]
    exact congrArg _ ih

theorem map_groupTau_perm {groups groups' : List (List ScoredRow)}
    (h : List.Forall₂ List.Perm groups groups') :
    (groups.filter fun rows => 2 ≤ rows.length).map groupTau =
      (groups'.filter fun rows => 2 ≤ rows.length).map groupTau := by
  induction h with
  | nil => rfl
  | cons hrows hrest ih =>
    rw [List.filter_cons, List.filter_cons, hrows.length_eq]
    split
    · rw [List.map_cons, List.map_cons, groupTau_perm hrows, ih]
    · exact ih

theorem metrics_of_perm (hs : groupSizes.sum ≤ scores.length) (hl : groupSizes.sum ≤ labels.length)
    (hs' : groupSizes.sum ≤ scores'.length) (hl' : groupSizes.sum ≤ labels'.length)
    (h : List.Forall₂ List.Perm (scoredGroups scores labels groupSizes)
      (scoredGroups scores' labels' groupSizes)) :
    kendallTauGrouped scores labels groupSizes = kendallTauGrouped scores' labels' groupSizes ∧
      pairwiseAccuracyGrouped scores labels groupSizes =
        pairwiseAccuracyGrouped scores' labels' groupSizes := by
  constructor
  · rw [kendallTauGrouped_eq hs hl, kendallTauGrouped_eq hs' hl', map_groupTau_perm h]
  · rw [pairwiseAccuracyGrouped_eq, pairwiseAccuracyGrouped_eq,
      countOver_perm (fun _ _ => concordantCount_perm) h,
      countOver_perm (fun _ _ => comparableCount_perm) h]

/-! ## Ranges -/

theorem kendallTauGrouped_mem (hs : groupSizes.sum ≤ scores.length)
    (hl : groupSizes.sum ≤ labels.length) :
    -1 ≤ kendallTauGrouped scores labels groupSizes ∧
      kendallTauGrouped scores labels groupSizes ≤ 1 := by
  rw [kendallTauGrouped_eq hs hl]
  refine mean_mem_Icc (by norm_num) zero_le_one fun x hx => ?_
  obtain ⟨rows, -, rfl⟩ := List.mem_map.mp hx
  exact groupTau_mem rows

theorem pairwiseAccuracyGrouped_mem (scores labels : List ℚ) (groupSizes : List ℕ) :
    0 ≤ pairwiseAccuracyGrouped scores labels groupSizes ∧
      pairwiseAccuracyGrouped scores labels groupSizes ≤ 1 := by
  have hle : countOver concordantCount (scoredGroups scores labels groupSizes) ≤
      countOver comparableCount (scoredGroups scores labels groupSizes) :=
    List.sum_le_sum fun rows _ => concordantCount_le rows
  rw [pairwiseAccuracyGrouped_eq, accuracyOf]
  split
  · refine ⟨by positivity, div_le_one_of_le₀ ?_ (Nat.cast_nonneg _)⟩
    exact_mod_cast hle
  · exact ⟨zero_le_one, le_rfl⟩

end Groups

/-- At least one group, all of one size and each with distinct labels: tau is twice the accuracy minus
one. In any case both are kept by permutations inside the groups, and stay in their ranges. -/
theorem tau_accuracy_agree :
    (∀ (n : ℕ) (scores labels : List ℚ) (groupSizes : List ℕ), 2 ≤ n → groupSizes ≠ [] →
        (∀ size ∈ groupSizes, size = n) → scores.length = groupSizes.sum →
        labels.length = groupSizes.sum →
        (∀ slice ∈ groupSlices labels groupSizes, slice.Nodup) →
        kendallTauGrouped scores labels groupSizes =
          2 * pairwiseAccuracyGrouped scores labels groupSizes - 1) ∧
      (∀ (scores labels scores' labels' : List ℚ) (groupSizes : List ℕ),
        groupSizes.sum ≤ scores.length → groupSizes.sum ≤ labels.length →
        groupSizes.sum ≤ scores'.length → groupSizes.sum ≤ labels'.length →
        List.Forall₂ List.Perm (scoredGroups scores labels groupSizes)
          (scoredGroups scores' labels' groupSizes) →
        kendallTauGrouped scores labels groupSizes = kendallTauGrouped scores' labels' groupSizes ∧
          pairwiseAccuracyGrouped scores labels groupSizes =
            pairwiseAccuracyGrouped scores' labels' groupSizes) ∧
      ∀ (scores labels : List ℚ) (groupSizes : List ℕ), groupSizes.sum ≤ scores.length →
        groupSizes.sum ≤ labels.length →
        (-1 ≤ kendallTauGrouped scores labels groupSizes ∧
          kendallTauGrouped scores labels groupSizes ≤ 1) ∧
        0 ≤ pairwiseAccuracyGrouped scores labels groupSizes ∧
          pairwiseAccuracyGrouped scores labels groupSizes ≤ 1 := by
  refine ⟨?_, ?_, ?_⟩
  · intro n scores labels groupSizes htwo hne hn hs hl hdistinct
    exact kendallTau_eq_accuracy htwo hne hn hs hl hdistinct
  · intro scores labels scores' labels' groupSizes hs hl hs' hl' hperm
    exact metrics_of_perm hs hl hs' hl' hperm
  · intro scores labels groupSizes hs hl
    exact ⟨kendallTauGrouped_mem hs hl, pairwiseAccuracyGrouped_mem scores labels groupSizes⟩

/-- Two groups of two rows, the second with tied scores. -/
theorem tau_accuracy_agree_two_groups :
    kendallTauGrouped [3, 1, 2, 2] [1, 0, 1, 0] [2, 2] =
      2 * pairwiseAccuracyGrouped [3, 1, 2, 2] [1, 0, 1, 0] [2, 2] - 1 :=
  tau_accuracy_agree.1 2 [3, 1, 2, 2] [1, 0, 1, 0] [2, 2] le_rfl (by decide) (by decide) rfl rfl
    (by decide)

/-- No group: the list of group sizes is empty, and all its groups are of size two. -/
theorem no_group_disagrees :
    ¬ ∀ (n : ℕ) (scores labels : List ℚ) (groupSizes : List ℕ), 2 ≤ n →
      (∀ size ∈ groupSizes, size = n) → scores.length = groupSizes.sum →
      labels.length = groupSizes.sum →
      (∀ slice ∈ groupSlices labels groupSizes, slice.Nodup) →
      kendallTauGrouped scores labels groupSizes =
        2 * pairwiseAccuracyGrouped scores labels groupSizes - 1 := by
  intro hall
  have hagree := hall 2 [] [] [] le_rfl (by simp) rfl rfl (by simp [groupSlices])
  have htau : kendallTauGrouped [] [] [] = 0 := by decide +kernel
  have haccuracy : pairwiseAccuracyGrouped [] [] [] = 1 := by decide +kernel
  rw [htau, haccuracy] at hagree
  norm_num at hagree

end Chronoq.Ranker
