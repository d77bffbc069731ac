import Chronoq.Ranker.RankMetrics

/-! # What Kendall's tau and pairwise accuracy count

Both metrics look at the pairs of rows of one group, a row being a score with its label:

* `concordantCount`: the scores order the two rows as their labels do.
* `comparableCount`: the labels order the two rows.
* `tiedCount`: the labels do and the scores do not.

Tau is the mean of `groupTau` over the groups of at least two rows, accuracy the ratio of the two totals.
None of the counts depends on the order of the rows. -/

namespace Chronoq.Ranker
open Foundations

set_option autoImplicit false

/-- A score with its label. -/
abbrev ScoredRow := ℚ × ℚ

def concordantCount (rows : List ScoredRow) : ℕ :=
  (pairsOf rows).countP fun p => 0 < (p.1.1 - p.2.1) * (p.1.2 - p.2.2)

def comparableCount (rows : List ScoredRow) : ℕ :=
  (pairsOf rows).countP fun p => p.1.2 ≠ p.2.2

def tiedCount (rows : List ScoredRow) : ℕ :=
  (pairsOf rows).countP fun p => p.1.1 = p.2.1 ∧ p.1.2 ≠ p.2.2

/-- The number of pairs of `n` rows. -/
def pairTotal (n : ℕ) : ℚ := (n : ℚ) * (n - 1) / 2

def groupTau (rows : List ScoredRow) : ℚ :=
  (2 * (concordantCount rows : ℚ) - comparableCount rows) / pairTotal rows.length

/-- The rows of each group. -/
def scoredGroups (scores labels : List ℚ) (groupSizes : List ℕ) : List (List ScoredRow) :=
  groupSlices (scores.zip labels) groupSizes

/-! ## The counts of one group -/

theorem length_pairsOf_eq (rows : List ScoredRow) :
    ((pairsOf rows).length : ℚ) = pairTotal rows.length := by
  have htwice : ((2 * (pairsOf rows).length : ℕ) : ℚ) = ((rows.length * (rows.length - 1) : ℕ) : ℚ) := by
    rw [two_mul_length_pairsOf]
  rw [pairTotal]
  cases hn : rows.length with
  | zero =>
    rw [hn] at htwice
    push_cast at htwice
    linarith
  | succ n =>
    rw [hn, Nat.add_sub_cancel] at htwice
    push_cast at htwice ⊢
    linarith

theorem comparableCount_le (rows : List ScoredRow) :
    (comparableCount rows : ℚ) ≤ pairTotal rows.length := by
  rw [← length_pairsOf_eq, Nat.cast_le]
  exact List.countP_le_length

theorem concordantCount_le (rows : List ScoredRow) :
    concordantCount rows ≤ comparableCount rows := by
  refine List.countP_mono_left fun p _ hp => ?_
  simp only [decide_eq_true_eq] at hp ⊢
  intro heq
  rw [heq, sub_self, mul_zero] at hp
  exact lt_irrefl 0 hp

theorem pairTotal_pos {n : ℕ} (hn : 2 ≤ n) : 0 < pairTotal n := by
  have hn' : (2 : ℚ) ≤ n := by exact_mod_cast hn
  rw [pairTotal]
  have hpos : 0 < (n : ℚ) * (n - 1) := mul_pos (by linarith) (by linarith)
  linarith

/-- A comparable pair is ordered by the scores, by the negated scores, or tied. -/
theorem comparableCount_eq (rows : List ScoredRow) :
    comparableCount rows = concordantCount rows +
      concordantCount (rows.map fun row => (-row.1, row.2)) + tiedCount rows := by
  rw [concordantCount, concordantCount, pairsOf_map, List.countP_map, comparableCount, tiedCount]
  induction pairsOf rows with
  | nil => rfl
  | cons p pairs ih =>
    simp only [List.countP_cons, Function.comp_apply, ih, decide_eq_true_eq]
    have hneg : (-p.1.1 - -p.2.1) * (p.1.2 - p.2.2) = -((p.1.1 - p.2.1) * (p.1.2 - p.2.2)) := by
      ring
    simp only [hneg, neg_pos]
    by_cases hlabel : p.1.2 = p.2.2
    · simp [hlabel]
    · have hlabel' : p.1.2 - p.2.2 ≠ 0 := sub_ne_zero.mpr hlabel
      by_cases hscore : p.1.1 = p.2.1
      · simp [hscore, hlabel]
        omega
      · rcases lt_trichotomy ((p.1.1 - p.2.1) * (p.1.2 - p.2.2)) 0 with hlt | heq | hgt
        · simp [hscore, hlabel, hlt, hlt.not_gt]
          omega
        · exact absurd heq (mul_ne_zero (sub_ne_zero.mpr hscore) hlabel')
        · simp [hscore, hlabel, hgt, hgt.not_gt]
          omega

theorem tiedCount_eq_zero_iff {rows : List ScoredRow} :
    tiedCount rows = 0 ↔ rows.Pairwise fun a b => a.1 = b.1 → a.2 = b.2 := by
  rw [tiedCount, List.countP_eq_zero, ← forall_mem_pairsOf_iff]
  simp only [decide_eq_true_eq, not_and, ne_eq, not_not]

/-! ## The order of the rows -/

theorem concordantCount_perm {rows rows' : List ScoredRow} (h : rows.Perm rows') :
    concordantCount rows = concordantCount rows' := by
  refine countP_pairsOf_perm (fun a b => ?_) h
  have hswap : (b.1 - a.1) * (b.2 - a.2) = (a.1 - b.1) * (a.2 - b.2) := by ring
  simp only [hswap]

theorem comparableCount_perm {rows rows' : List ScoredRow} (h : rows.Perm rows') :
    comparableCount rows = comparableCount rows' :=
  countP_pairsOf_perm (fun a b => by simp only [ne_comm]) h

theorem groupTau_perm {rows rows' : List ScoredRow} (h : rows.Perm rows') :
    groupTau rows = groupTau rows' := by
  rw [groupTau, groupTau, concordantCount_perm h, comparableCount_perm h, h.length_eq]

theorem groupTau_mem (rows : List ScoredRow) : -1 ≤ groupTau rows ∧ groupTau rows ≤ 1 := by
  have hcomparable := comparableCount_le rows
  have hconcordant : (concordantCount rows : ℚ) ≤ comparableCount rows := by
    exact_mod_cast concordantCount_le rows
  have hnonneg : (0 : ℚ) ≤ concordantCount rows := Nat.cast_nonneg _
  have htotal : 0 ≤ pairTotal rows.length := by
    rw [← length_pairsOf_eq]
    exact Nat.cast_nonneg _
  rw [← abs_le, groupTau, abs_div, abs_of_nonneg htotal]
  exact div_le_one_of_le₀ (abs_le.mpr ⟨by linarith, by linarith⟩) htotal

/-! ## The metrics over the groups -/

def countOver (count : List ScoredRow → ℕ) (groups : List (List ScoredRow)) : ℕ :=
  (groups.map count).sum

/-- `correct / total if total > 0 else 1.0` -/
def accuracyOf (correct total : ℕ) : ℚ := if 0 < total then (correct : ℚ) / total else 1

/-- A concordant pair is comparable. -/
theorem concordantCount_filter (rows : List ScoredRow) :
    ((pairsOf rows).filter fun p => p.1.2 ≠ p.2.2).countP
      (fun p => 0 < (p.1.1 - p.2.1) * (p.1.2 - p.2.2)) = concordantCount rows := by
  rw [List.countP_filter, concordantCount]
  refine List.countP_congr fun p _ => ?_
  simp only [Bool.and_eq_true, decide_eq_true_eq, and_iff_left_iff_imp]
  exact fun hpos => sub_ne_zero.mp (right_ne_zero_of_mul hpos.ne')

theorem kendallTau_eq (rows : List ScoredRow) :
    kendallTau (rows.map Prod.fst) (rows.map Prod.snd) = groupTau rows := by
  have hzip : (rows.map Prod.fst).zip (rows.map Prod.snd) = rows := by
    rw [List.zip_map', List.map_id']
  have hcomparable : ((pairsOf rows).filter fun p => p.1.2 ≠ p.2.2).length = comparableCount rows :=
    List.countP_eq_length_filter.symm
  rw [kendallTau, hzip]
  simp only [ne_eq, sub_eq_zero] at hcomparable ⊢
  rw [hcomparable, concordantCount_filter, Nat.cast_sub (concordantCount_le rows), List.length_map,
    groupTau, pairTotal]
  congr 1
  ring

section Groups
variable {scores labels : List ℚ} {groupSizes : List ℕ}

theorem kendallTauGrouped_eq (hs : groupSizes.sum ≤ scores.length)
    (hl : groupSizes.sum ≤ labels.length) :
    kendallTauGrouped scores labels groupSizes =
      mean (((scoredGroups scores labels groupSizes).filter fun rows => 2 ≤ rows.length).map
        groupTau) := by
  rw [kendallTauGrouped, zip_groupSlices hs hl, scoredGroups, List.filter_map, List.map_map]
  congr 1
  exact List.map_congr_left fun rows _ => kendallTau_eq rows

theorem pairwiseAccuracyGrouped_eq (scores labels : List ℚ) (groupSizes : List ℕ) :
    pairwiseAccuracyGrouped scores labels groupSizes =
      accuracyOf (countOver concordantCount (scoredGroups scores labels groupSizes))
        (countOver comparableCount (scoredGroups scores labels groupSizes)) := by
  have hgroups : scoredGroups scores labels groupSizes =
      ((groupSlices scores groupSizes).zip (groupSlices labels groupSizes)).map fun g =>
        g.1.zip g.2 := by
    rw [scoredGroups, groupSlices_zip, List.map_zip_eq_zipWith]
    rfl
  have hcomparable (rows : List ScoredRow) :
      ((pairsOf rows).filter fun p => p.1.2 ≠ p.2.2).length = comparableCount rows :=
    List.countP_eq_length_filter.symm
  rw [pairwiseAccuracyGrouped, hgroups, countOver, countOver, List.map_map, List.map_map]
  simp only [List.length_flatMap, List.countP_flatMap, hcomparable]
  have hconcordant : (List.countP fun p : ScoredRow × ScoredRow =>
      decide (0 < (p.1.1 - p.2.1) * (p.1.2 - p.2.2))) ∘
        (fun g : List ℚ × List ℚ => (pairsOf (g.1.zip g.2)).filter fun p => p.1.2 ≠ p.2.2) =
      concordantCount ∘ fun g => g.1.zip g.2 :=
    funext fun g => concordantCount_filter (g.1.zip g.2)
  rw [hconcordant]
  rfl

end Groups

end Chronoq.Ranker
