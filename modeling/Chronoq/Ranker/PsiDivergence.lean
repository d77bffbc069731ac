import Chronoq.Ranker.CompleteShift

/-! # The index as a divergence

In real arithmetic the index is a sum of terms `(A - E) * log (A / E)` with positive `A` and `E`, none of
which is negative, over bins and counts that do not see the order of either array. A batch that is the
reference in another order therefore has index zero in every column, and `check` reports it as stable. -/

namespace Chronoq.Ranker
open Foundations

set_option autoImplicit false

section Index
variable {reference reference' current current' : List ℚ}

theorem psi_nonneg (reference current : List ℚ) : 0 ≤ psi reference current := by
  by_cases h : LongEnough reference current
  · rw [psi_eq_divergence h]
    exact divergence_nonneg proportions_pos proportions_pos
  · rw [psi_of_not_longEnough h]

theorem psi_eq_zero_iff (h : LongEnough reference current) : psi reference current = 0 ↔
    clippedPct current (psiBins reference) = clippedPct reference (psiBins reference) := by
  rw [psi_eq_divergence h, divergence_eq_zero_iff proportions_pos proportions_pos
    (by rw [length_proportions, length_proportions]), proportions, proportions]
  exact (List.map_injective_iff.mpr Rat.cast_injective).eq_iff

/-! ## Order -/

theorem psiBins_perm (h : reference.Perm reference') : psiBins reference = psiBins reference' := by
  rw [psiBins_eq, psiBins_eq]
  simp only [percentile_perm h]

theorem clippedPct_perm {values values' : List ℚ} (h : values.Perm values') (bins : List ℚ) :
    clippedPct values bins = clippedPct values' bins := by
  rw [clippedPct, clippedPct, histogram_eq_binCounts, histogram_eq_binCounts, binCounts_perm h,
    h.length_eq]

theorem psi_perm (h : reference.Perm reference') (h' : current.Perm current') :
    psi reference current = psi reference' current' := by
  rw [psi, psi, computePsi, computePsi, h.length_eq, h'.length_eq, psiBins_perm h]
  simp only [clippedPct_perm h, clippedPct_perm h']

theorem psi_of_perm (h : reference.Perm current) : psi reference current = 0 := by
  by_cases hlong : LongEnough reference current
  · rw [psi_eq_zero_iff hlong]
    exact clippedPct_perm h.symm _
  · exact psi_of_not_longEnough hlong

end Index

/-- The histogram holds the counts of the values between neighbouring edges, and at the last one. -/
theorem histogram_getElem? (values edges : List ℚ) {k : ℕ} (h : k + 1 < edges.length) :
    (histogram values edges)[k]? = some (values.countP fun v =>
      edges[k] ≤ v ∧ (v < edges[k + 1] ∨ k + 2 = edges.length ∧ v = edges[k + 1])) := by
  induction edges using binsOf.induct generalizing k with
  | case1 a b c edges ih =>
    rw [histogram]
    cases k with
    | zero =>
      rw [List.getElem?_cons_zero]
      congr 2
      funext v
      simp
    | succ k =>
      rw [List.getElem?_cons_succ, ih (by simpa using h)]
      simp
  | case2 a b =>
    obtain rfl : k = 0 := by
      simp only [List.length_cons, List.length_nil] at h
      omega
    rw [histogram]
    simp only [List.getElem?_cons_zero, List.getElem_cons_zero, List.getElem_cons_succ]
    congr 2
    funext v
    simp [le_iff_lt_or_eq]
  | case3 edges hthree htwo =>
    rcases edges with _ | ⟨a, _ | ⟨b, _ | ⟨c, edges⟩⟩⟩
    · simp at h
    · simp at h
    · exact (htwo a b rfl).elim
    · exact (hthree a b c edges rfl).elim

/-- The proportion of a bin is its share of the values, clipped from below. -/
theorem clippedPct_getElem? (values edges : List ℚ) {k : ℕ} (h : k + 1 < edges.length) :
    (clippedPct values edges)[k]? = some (max ((values.countP fun v =>
      edges[k] ≤ v ∧ (v < edges[k + 1] ∨ k + 2 = edges.length ∧ v = edges[k + 1]) : ℚ) /
        max values.length 1) binMargin) := by
  rw [clippedPct, List.getElem?_map, histogram_getElem? values edges h]
  rfl

/-! ## The reference batch itself -/

namespace DriftDetector
variable {d : DriftDetector}

theorem reportOf_stable {psis : List (String × ℝ)}
    (h : ∀ p ∈ psis, p.2 < driftThreshold ∧ p.2 < d.config.psiThreshold) :
    (d.reportOf psis).overallStatus = .stable := by
  have hdrifted : (psis.filter fun p => (driftThreshold : ℝ) ≤ p.2) = [] := by
    rw [List.filter_eq_nil_iff]
    intro p hp
    simpa using (h p hp).1
  have hwarned : (psis.filter fun p =>
      p.2 < (driftThreshold : ℝ) ∧ (d.config.psiThreshold : ℝ) ≤ p.2) = [] := by
    rw [List.filter_eq_nil_iff]
    intro p hp
    simpa using fun _ => (h p hp).2
  rw [reportOf, hdrifted, hwarned]
  rfl

/-- A column in another order has index zero, whatever is in it. -/
theorem columnPsi_of_perm (counts : Multiset ExtFloat → Multiset ExtFloat → List ℕ)
    {reference current : List ExtFloat} (h : reference.Perm current) :
    columnPsi (realNumpy counts) reference current = 0 := by
  unfold columnPsi
  split
  · exact psi_of_perm (h.map ExtFloat.toRat)
  · split
    · rfl
    · have hshares : clippedShares (realNumpy counts) reference current =
          clippedShares (realNumpy counts) reference reference := by
        rw [clippedShares, clippedShares, h.length_eq, Multiset.coe_eq_coe.mpr h.symm]
      rw [hshares, List.zipWith_self]
      simp

theorem featurePsis_zero (counts : Multiset ExtFloat → Multiset ExtFloat → List ℕ)
    (records : List TaskRecord)
    (h : ∀ entry ∈ d.reference, ∃ values, d.columnValues records entry.1 = .ok values ∧
      entry.2.Perm values) :
    ∃ psis, d.featurePsis (realNumpy counts) records = .ok psis ∧ ∀ p ∈ psis, p.2 = 0 := by
  obtain ⟨psis, hpsis⟩ : ∃ psis, d.featurePsis (realNumpy counts) records = .ok psis := by
    refine exists_mapM_ok fun entry hentry => ?_
    obtain ⟨values, hvalues, -⟩ := h entry hentry
    exact ⟨_, by rw [hvalues]; rfl⟩
  refine ⟨psis, hpsis, fun p hp => ?_⟩
  obtain ⟨entry, hentry, hp⟩ := exists_of_mem_mapM_ok hpsis hp
  obtain ⟨values, hvalues, hperm⟩ := h entry hentry
  rw [hvalues] at hp
  cases hp
  exact columnPsi_of_perm counts hperm

/-- Once a reference is stored, the same records in any order are reported as stable. -/
theorem report_stored_reference (counts : Multiset ExtFloat → Multiset ExtFloat → List ℕ)
    {records records' : List TaskRecord} (hne : records ≠ [])
    (hstored : (d.setReference records).2 = .ok ()) (hperm : records.Perm records')
    (hcols : d.extractor.numeric ≠ []) (hthreshold : 0 < d.config.psiThreshold) :
    ∃ report, (d.setReference records).1.report (realNumpy counts) records' = .ok report ∧
      report.overallStatus = .stable := by
  obtain ⟨hextractor, hconfig⟩ := setReference_fixed (d := d) records
  obtain ⟨hvalues, hkeys⟩ := setReference_stored hne hstored
  have hsame : ∀ col, (d.setReference records).1.columnValues records' col =
      d.columnValues records' col := by
    intro col
    rw [columnValues, columnValues, hextractor]
  obtain ⟨psis, hpsis, hzero⟩ := (d.setReference records).1.featurePsis_zero counts records'
    fun entry hentry => by
      rw [hsame]
      exact perm_of_mapM_ok hperm (hvalues entry hentry)
  have hreference : (d.setReference records).1.reference ≠ [] := by
    obtain ⟨col, hcol⟩ := List.exists_mem_of_ne_nil _ hcols
    obtain ⟨entry, hentry, -⟩ := List.mem_map.mp ((hkeys col).mpr hcol)
    exact List.ne_nil_of_mem hentry
  refine ⟨_, by rw [report, if_neg hreference, hpsis]; rfl, reportOf_stable fun p hp => ?_⟩
  rw [hzero p hp, hconfig]
  exact ⟨by norm_num [driftThreshold], by exact_mod_cast hthreshold⟩

end DriftDetector

theorem psi_is_divergence :
    (∀ reference current, 0 ≤ psi reference current) ∧
    (∀ reference current, reference.Perm current → psi reference current = 0) ∧
    (∀ reference current, 2 ≤ reference.length ∧ 1 ≤ current.length → (psi reference current = 0 ↔
      clippedPct current (psiBins reference) = clippedPct reference (psiBins reference))) ∧
    (∀ (values edges : List ℚ) (k : ℕ) (h : k + 1 < edges.length), (clippedPct values edges)[k]? =
      some (max ((values.countP fun v =>
        edges[k] ≤ v ∧ (v < edges[k + 1] ∨ k + 2 = edges.length ∧ v = edges[k + 1]) : ℚ) /
          max values.length 1) binMargin)) ∧
    (∀ reference reference' current current', reference.Perm reference' → current.Perm current' →
      psi reference current = psi reference' current') ∧
    ∀ counts (d : DriftDetector) (records records' : List TaskRecord), records ≠ [] →
      (d.setReference records).2 = .ok () → records.Perm records' → d.extractor.numeric ≠ [] →
      0 < d.config.psiThreshold →
      ∃ report, (d.setReference records).1.report (realNumpy counts) records' = .ok report ∧
        report.overallStatus = .stable :=
  ⟨psi_nonneg, fun _ _ => psi_of_perm, fun _ _ => psi_eq_zero_iff,
    fun _ _ _ => clippedPct_getElem? _ _, fun _ _ _ _ => psi_perm,
    fun counts _ _ _ => DriftDetector.report_stored_reference counts⟩

theorem psi_is_divergence_sizes :
    psi [1, 2, 3] [3, 1, 2] = 0 ∧
      (psi [1, 2, 3] [3, 1] = 0 ↔
        clippedPct [3, 1] (psiBins [1, 2, 3]) = clippedPct [1, 2, 3] (psiBins [1, 2, 3])) ∧
      psi [1, 2, 3] [3, 1] = psi [2, 1, 3] [1, 3] ∧
      ∃ report, (DriftDetector.plainDetector.setReference ([1, 2].map DriftDetector.sizeRecord)).1.report
          (realNumpy fun _ _ => []) ([2, 1].map DriftDetector.sizeRecord) = .ok report ∧
        report.overallStatus = .stable := by
  obtain ⟨-, hzero, hiff, -, hperm, hcheck⟩ := psi_is_divergence
  refine ⟨hzero _ _ (by decide), hiff _ _ (by decide), hperm _ _ _ _ (by decide) (by decide), ?_⟩
  refine hcheck (fun _ _ => []) DriftDetector.plainDetector _ _ (List.cons_ne_nil _ _)
    (DriftDetector.setReference_sizes (by decide)) (List.Perm.map _ (by decide)) (by decide) ?_
  norm_num [DriftDetector.plainDetector]

end Chronoq.Ranker
