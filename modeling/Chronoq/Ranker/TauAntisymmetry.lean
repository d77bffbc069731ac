import Chronoq.Ranker.PairMetrics

/-! # Turning all scores around

Negating every score is to negate tau: it exchanges concordant and discordant pairs. But the loop counts
a pair with equal scores as discordant, and negation leaves it equal. So tau and the tau of the negated
scores add up to minus twice the share of the tied pairs (`groupTau_neg`), which is zero only if there
are none. -/

namespace Chronoq.Ranker
open Foundations

set_option autoImplicit false

/-- No two rows of a group have equal scores and different labels. -/
def NoTiedPairs (scores labels : List ℚ) (groupSizes : List ℕ) : Prop :=
  ∀ rows ∈ scoredGroups scores labels groupSizes, rows.Pairwise fun a b => a.1 = b.1 → a.2 = b.2

instance (scores labels : List ℚ) (groupSizes : List ℕ) :
    Decidable (NoTiedPairs scores labels groupSizes) :=
  inferInstanceAs (Decidable (∀ rows ∈ scoredGroups scores labels groupSizes,
    rows.Pairwise fun a b => a.1 = b.1 → a.2 = b.2))

/-! ## One group -/

def negatedScores (rows : List ScoredRow) : List ScoredRow := rows.map fun row => (-row.1, row.2)

/-- Twice the share of the tied pairs among all pairs. -/
def tiedShare (rows : List ScoredRow) : ℚ := 2 * (tiedCount rows : ℚ) / pairTotal rows.length

theorem comparableCount_negatedScores (rows : List ScoredRow) :
    comparableCount (negatedScores rows) = comparableCount rows := by
  rw [comparableCount, negatedScores, pairsOf_map, List.countP_map]
  rfl

theorem groupTau_neg (rows : List ScoredRow) :
    groupTau (negatedScores rows) + groupTau rows = -tiedShare rows := by
  have hcount : (comparableCount rows : ℚ) = concordantCount rows +
      concordantCount (negatedScores rows) + tiedCount rows := by
    rw [comparableCount_eq]
    push_cast
    rfl
  rw [groupTau, groupTau, tiedShare, comparableCount_negatedScores, negatedScores, List.length_map,
    ← negatedScores, ← add_div, ← neg_div, hcount]
  congr 1
  ring

theorem tiedShare_nonneg {rows : List ScoredRow} (h : 2 ≤ rows.length) : 0 ≤ tiedShare rows := by
  have hpos := pairTotal_pos h
  rw [tiedShare]
  positivity

theorem tiedShare_eq_zero_iff {rows : List ScoredRow} (h : 2 ≤ rows.length) :
    tiedShare rows = 0 ↔ rows.Pairwise fun a b => a.1 = b.1 → a.2 = b.2 := by
  have hpos := pairTotal_pos h
  rw [← tiedCount_eq_zero_iff, tiedShare, div_eq_zero_iff, mul_eq_zero, Nat.cast_eq_zero]
  constructor
  · rintro ((htwo | hzero) | htotal)
    · norm_num at htwo
    · exact hzero
    · exact absurd htotal hpos.ne'
  · exact fun hzero => .inl (.inr hzero)

/-- With one score for all rows no pair is concordant, whichever way the scores are turned. -/
theorem groupTau_negatedScores_of_const {rows : List ScoredRow}
    (h : rows.Pairwise fun a b => a.1 = b.1) : groupTau (negatedScores rows) = groupTau rows := by
  have hnone : concordantCount rows = 0 := by
    rw [concordantCount, List.countP_eq_zero]
    intro p hp
    have hscore : p.1.1 = p.2.1 := forall_mem_pairsOf_iff.mpr h p hp
    rw [hscore]
    simp
  have hnone' : concordantCount (negatedScores rows) = 0 := by
    rw [concordantCount, negatedScores, pairsOf_map, List.countP_map, List.countP_eq_zero]
    intro p hp
    have hscore : p.1.1 = p.2.1 := forall_mem_pairsOf_iff.mpr h p hp
    simp only [Function.comp_apply, hscore]
    simp
  rw [groupTau, groupTau, comparableCount_negatedScores, hnone, hnone', negatedScores,
    List.length_map]

/-! ## All groups -/

section Groups
variable {scores labels : List ℚ} {groupSizes : List ℕ}

theorem scoredGroups_neg (scores labels : List ℚ) (groupSizes : List ℕ) :
    scoredGroups (scores.map fun s => -s) labels groupSizes =
      (scoredGroups scores labels groupSizes).map negatedScores := by
  have hzip : (scores.map fun s => -s).zip labels =
      (scores.zip labels).map fun row => (-row.1, row.2) := by
    rw [List.zip_map_left]
    rfl
  rw [scoredGroups, hzip, groupSlices_map]
  rfl

theorem kendallTauGrouped_neg (hs : groupSizes.sum ≤ scores.length)
    (hl : groupSizes.sum ≤ labels.length) :
    kendallTauGrouped (scores.map fun s => -s) labels groupSizes =
      mean (((scoredGroups scores labels groupSizes).filter fun rows => 2 ≤ rows.length).map
        fun rows => groupTau (negatedScores rows)) := by
  have hs' : groupSizes.sum ≤ (scores.map fun s => -s).length := by rwa [List.length_map]
  rw [kendallTauGrouped_eq hs' hl, scoredGroups_neg, List.filter_map, List.map_map]
  simp only [Function.comp_def, negatedScores, List.length_map]

/-- Tau, the tau of the negated scores and the mean share of tied pairs cancel out. -/
theorem kendallTauGrouped_add_neg (hs : groupSizes.sum ≤ scores.length)
    (hl : groupSizes.sum ≤ labels.length) :
    kendallTauGrouped (scores.map fun s => -s) labels groupSizes +
        kendallTauGrouped scores labels groupSizes +
      mean (((scoredGroups scores labels groupSizes).filter fun rows => 2 ≤ rows.length).map
        tiedShare) = 0 := by
  rw [kendallTauGrouped_neg hs hl, kendallTauGrouped_eq hs hl, ← mean_map_add, ← mean_map_add]
  refine (mean_eq_zero_iff ?_).mpr ?_
  · intro x hx
    obtain ⟨rows, -, rfl⟩ := List.mem_map.mp hx
    rw [groupTau_neg, neg_add_cancel]
  · intro x hx
    obtain ⟨rows, -, rfl⟩ := List.mem_map.mp hx
    rw [groupTau_neg, neg_add_cancel]

theorem mean_tiedShare_eq_zero_iff (scores labels : List ℚ) (groupSizes : List ℕ) :
    mean (((scoredGroups scores labels groupSizes).filter fun rows => 2 ≤ rows.length).map
      tiedShare) = 0 ↔ NoTiedPairs scores labels groupSizes := by
  rw [mean_eq_zero_iff]
  · rw [List.forall_mem_map]
    constructor
    · intro hall rows hrows
      by_cases htwo : 2 ≤ rows.length
      · refine (tiedShare_eq_zero_iff htwo).mp (hall rows ?_)
        exact List.mem_filter.mpr ⟨hrows, decide_eq_true htwo⟩
      · exact pairwise_of_length_lt_two htwo
    · intro hties rows hrows
      obtain ⟨hmem, htwo⟩ := List.mem_filter.mp hrows
      exact (tiedShare_eq_zero_iff (of_decide_eq_true htwo)).mpr (hties rows hmem)
  · intro x hx
    obtain ⟨rows, hrows, rfl⟩ := List.mem_map.mp hx
    exact tiedShare_nonneg (of_decide_eq_true (List.mem_filter.mp hrows).2)

/-- Negating the scores negates tau exactly when no pair is tied. Where each group has one score for
all its rows, tau is zero exactly then. -/
theorem kendall_antisymmetric_iff (hs : scores.length = groupSizes.sum)
    (hl : labels.length = groupSizes.sum) :
    (kendallTauGrouped (scores.map fun s => -s) labels groupSizes =
        -kendallTauGrouped scores labels groupSizes ↔ NoTiedPairs scores labels groupSizes) ∧
      ((∀ rows ∈ scoredGroups scores labels groupSizes, rows.Pairwise fun a b => a.1 = b.1) →
        (kendallTauGrouped scores labels groupSizes = 0 ↔
          NoTiedPairs scores labels groupSizes)) := by
  have hsum := kendallTauGrouped_add_neg hs.ge hl.ge
  rw [← mean_tiedShare_eq_zero_iff]
  refine ⟨⟨fun hneg => ?_, fun hzero => ?_⟩, fun hconst => ?_⟩
  · rw [hneg] at hsum
    linarith
  · rw [hzero] at hsum
    linarith
  · have hsame : kendallTauGrouped (scores.map fun s => -s) labels groupSizes =
        kendallTauGrouped scores labels groupSizes := by
      rw [kendallTauGrouped_neg hs.ge hl.ge, kendallTauGrouped_eq hs.ge hl.ge]
      congr 1
      refine List.map_congr_left fun rows hrows => ?_
      exact groupTau_negatedScores_of_const (hconst rows (List.mem_filter.mp hrows).1)
    rw [hsame] at hsum
    constructor
    · intro hzero
      rw [hzero] at hsum
      linarith
    · intro hzero
      rw [hzero] at hsum
      linarith

end Groups

/-! ## Two rows with one score -/

theorem kendall_antisymmetric_iff_two_rows :
    kendallTauGrouped ([0, 0].map fun s => -s) [1, 0] [2] = -kendallTauGrouped [0, 0] [1, 0] [2] ↔
      NoTiedPairs [0, 0] [1, 0] [2] :=
  (kendall_antisymmetric_iff rfl rfl).1

/-- One score for two rows with labels `1` and `0`: tau is `-1`, and so is the tau of the negated
scores. -/
theorem constant_scores_give_minus_one :
    ¬ ∀ (scores labels : List ℚ) (groupSizes : List ℕ), scores.length = groupSizes.sum →
      labels.length = groupSizes.sum →
      kendallTauGrouped (scores.map fun s => -s) labels groupSizes =
        -kendallTauGrouped scores labels groupSizes := by
  intro hall
  have hneg := hall [0, 0] [1, 0] [2] rfl rfl
  have hvalue : kendallTauGrouped [0, 0] [1, 0] [2] = -1 := by decide +kernel
  have hvalue' : kendallTauGrouped ([0, 0].map fun s => -s) [1, 0] [2] = -1 := by decide +kernel
  rw [hvalue, hvalue'] at hneg
  norm_num at hneg

end Chronoq.Ranker
