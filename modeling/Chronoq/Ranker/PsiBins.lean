import Chronoq.Foundations.Divergence
import Chronoq.Foundations.Histogram
import Chronoq.Foundations.OrderStatistics
import Chronoq.Ranker.Drift

/-! # The bins of `_compute_psi`

The edges are percentiles of the reference with the outer two moved out by `binMargin`, so the bins cover
the range of the reference and hardly more.

* `between_psiBins_iff`: a value lies between two edges when it is within `binMargin` of that range.
* `sum_histogram`: the counts of a batch add up to the number of such values.
* `psi`: the index with the logarithm of the reals, which is the divergence of the clipped proportions
  (`psi_eq_divergence`). -/

namespace Chronoq.Ranker
open Foundations

set_option autoImplicit false

/-! ## The edges -/

section Edges
variable {reference : List ℚ}

theorem psiBins_eq (reference : List ℚ) : psiBins reference =
    ((percentile 0 reference - binMargin) :: (List.range' 1 9).map (fun (k : ℕ) =>
      percentile (100 / nBins * k) reference) ++ [percentile 100 reference + binMargin]).dedup.insertionSort
        (· ≤ ·) := by
  have hrange : List.range (nBins + 1) = 0 :: List.range' 1 9 ++ [10] := by decide
  have hzero : (100 : ℚ) / nBins * (0 : ℕ) = 0 := by norm_num
  have hlast : (100 : ℚ) / nBins * (10 : ℕ) = 100 := by norm_num [nBins]
  rw [psiBins, hrange, List.map_append, List.map_cons, List.map_singleton, hzero, hlast]
  rw [List.cons_append, List.modifyHead_cons, ← List.cons_append, List.modifyLast_concat]

theorem mem_psiBins {e : ℚ} : e ∈ psiBins reference ↔
    e = percentile 0 reference - binMargin ∨
      (∃ k : ℕ, k ∈ List.range' 1 9 ∧ e = percentile (100 / nBins * k) reference) ∨
        e = percentile 100 reference + binMargin := by
  rw [psiBins_eq, List.mem_insertionSort, List.mem_dedup, List.mem_append, List.mem_cons,
    List.mem_map, List.mem_singleton, or_assoc]
  simp only [eq_comm]

theorem pairwise_psiBins (reference : List ℚ) : (psiBins reference).Pairwise (· ≤ ·) :=
  List.pairwise_insertionSort _ _

theorem length_psiBins_le (reference : List ℚ) : (psiBins reference).length ≤ nBins + 1 := by
  rw [psiBins_eq, List.length_insertionSort]
  refine (List.dedup_sublist _).length_le.trans ?_
  simp [nBins]

theorem percentile_le (hne : reference ≠ []) {q q' : ℚ} (hq : q = 0 ∨ q' = 100) (h0 : 0 ≤ q)
    (h0' : 0 ≤ q') (h1 : q ≤ 100) (h1' : q' ≤ 100) :
    percentile q reference ≤ percentile q' reference := by
  have hleast := isLeast_percentile_zero hne
  have hgreatest := isGreatest_percentile_hundred hne
  have hbounds : ∀ x ∈ reference, percentile 0 reference ≤ x ∧ x ≤ percentile 100 reference :=
    fun x hx => ⟨hleast.2 hx, hgreatest.2 hx⟩
  rcases hq with rfl | rfl
  · exact (percentile_mem_Icc h0' h1' hne hbounds).1
  · exact (percentile_mem_Icc h0 h1 hne hbounds).2

/-- Two edges at least are distinct: the outer ones have been moved apart. -/
theorem two_le_length_psiBins (hne : reference ≠ []) : 2 ≤ (psiBins reference).length := by
  have hmargin : (0 : ℚ) < binMargin := by norm_num [binMargin]
  have hle : percentile 0 reference ≤ percentile 100 reference :=
    percentile_le hne (.inl rfl) le_rfl (by norm_num) (by norm_num) le_rfl
  have hfirst : percentile 0 reference - binMargin ∈ psiBins reference := mem_psiBins.mpr (.inl rfl)
  have hlast : percentile 100 reference + binMargin ∈ psiBins reference :=
    mem_psiBins.mpr (.inr (.inr rfl))
  match hbins : psiBins reference with
  | [] =>
    rw [hbins] at hfirst
    cases hfirst
  | [e] =>
    rw [hbins, List.mem_singleton] at hfirst hlast
    linarith
  | _ :: _ :: _ => simp

/-- Within `binMargin` of the range of the reference. -/
def InRange (reference : List ℚ) (v : ℚ) : Prop :=
  (∃ r ∈ reference, r - binMargin ≤ v) ∧ ∃ r ∈ reference, v ≤ r + binMargin

instance (reference : List ℚ) (v : ℚ) : Decidable (InRange reference v) :=
  inferInstanceAs (Decidable ((∃ r ∈ reference, r - binMargin ≤ v) ∧
    ∃ r ∈ reference, v ≤ r + binMargin))

theorem inRange_of_mem {v : ℚ} (h : v ∈ reference) : InRange reference v := by
  have hmargin : (0 : ℚ) ≤ binMargin := by norm_num [binMargin]
  exact ⟨⟨v, h, sub_le_self v hmargin⟩, v, h, le_add_of_nonneg_right hmargin⟩

theorem between_psiBins_iff (hne : reference ≠ []) (v : ℚ) :
    Between (psiBins reference) v ↔ InRange reference v := by
  have hmargin : (0 : ℚ) ≤ binMargin := by norm_num [binMargin]
  have hleast := isLeast_percentile_zero hne
  have hgreatest := isGreatest_percentile_hundred hne
  -- no edge is further out than the outer two
  have hedges : ∀ e ∈ psiBins reference,
      percentile 0 reference - binMargin ≤ e ∧ e ≤ percentile 100 reference + binMargin := by
    have hends : percentile 0 reference ≤ percentile 100 reference :=
      percentile_le hne (.inl rfl) le_rfl (by norm_num) (by norm_num) le_rfl
    intro e he
    rcases mem_psiBins.mp he with rfl | ⟨k, hk, rfl⟩ | rfl
    · constructor <;> linarith
    · obtain ⟨-, hk10⟩ := List.mem_range'_1.mp hk
      have hk' : (k : ℚ) ≤ 10 := by exact_mod_cast (by omega : k ≤ 10)
      have h0 : (0 : ℚ) ≤ 100 / nBins * k := by positivity
      have h1 : (100 : ℚ) / nBins * k ≤ 100 := by
        norm_num [nBins]
        linarith
      have hlow := percentile_le hne (.inl rfl) le_rfl h0 (by norm_num) h1
      have hhigh := percentile_le hne (.inr rfl) h0 (by norm_num) h1 le_rfl
      constructor <;> linarith
    · constructor <;> linarith
  constructor
  · rintro ⟨⟨e, he, hev⟩, e', he', hve'⟩
    exact ⟨⟨_, hleast.1, (hedges e he).1.trans hev⟩, _, hgreatest.1, hve'.trans (hedges e' he').2⟩
  · rintro ⟨⟨r, hr, hrv⟩, r', hr', hvr'⟩
    have hlow := hleast.2 hr
    have hhigh := hgreatest.2 hr'
    exact ⟨⟨_, mem_psiBins.mpr (.inl rfl), by linarith⟩, _, mem_psiBins.mpr (.inr (.inr rfl)),
      by linarith⟩

end Edges

/-! ## The counts -/

section Counts
variable {reference current : List ℚ}

theorem histogram_eq_binCounts (values edges : List ℚ) :
    histogram values edges = binCounts values edges := by
  induction edges using binsOf.induct with
  | case1 a b c edges ih =>
    rw [histogram, ih]
    rfl
  | case2 a b => rfl
  | case3 edges hthree htwo =>
    rcases edges with _ | ⟨a, _ | ⟨b, _ | ⟨c, edges⟩⟩⟩
    · rfl
    · rfl
    · exact (htwo a b rfl).elim
    · exact (hthree a b c edges rfl).elim

theorem length_histogram (values edges : List ℚ) :
    (histogram values edges).length = edges.length - 1 := by
  rw [histogram_eq_binCounts, binCounts, List.length_map, length_binsOf]

/-- The counts add up to the number of values in the range of the reference. -/
theorem sum_histogram (hne : reference ≠ []) (values : List ℚ) :
    (histogram values (psiBins reference)).sum = values.countP fun v => InRange reference v := by
  rw [histogram_eq_binCounts, sum_binCounts (pairwise_psiBins reference) (two_le_length_psiBins hne)]
  simp only [between_psiBins_iff hne]

theorem sum_histogram_reference (hne : reference ≠ []) :
    (histogram reference (psiBins reference)).sum = reference.length := by
  rw [sum_histogram hne, List.countP_eq_length]
  exact fun v hv => decide_eq_true (inRange_of_mem hv)

theorem sum_histogram_eq_length_iff (hne : reference ≠ []) :
    (histogram current (psiBins reference)).sum = current.length ↔
      ∀ v ∈ current, InRange reference v := by
  rw [sum_histogram hne, List.countP_eq_length]
  simp only [decide_eq_true_eq]

end Counts

/-! ## The index -/

section Index
variable {reference current : List ℚ}

noncomputable def realLog (q : ℚ) : ℝ := Real.log q

noncomputable def psi (reference current : List ℚ) : ℝ := computePsi realLog reference current

/-- numpy over the reals, with some way to count the bins of columns that are not all numbers. -/
noncomputable def realNumpy (counts : Multiset ExtFloat → Multiset ExtFloat → List ℕ) : Numpy ℝ :=
  ⟨realLog, counts⟩

theorem columnPsi_finite (counts : Multiset ExtFloat → Multiset ExtFloat → List ℕ)
    (reference current : List ℚ) :
    columnPsi (realNumpy counts) (reference.map .finite) (current.map .finite) =
      psi reference current := by
  have hfinite : ∀ values : List ℚ, (values.map ExtFloat.finite).all ExtFloat.isFinite = true := by
    intro values
    rw [List.all_map, List.all_eq_true]
    exact fun _ _ => rfl
  have hvalues : ∀ values : List ℚ, (values.map ExtFloat.finite).map ExtFloat.toRat = values := by
    intro values
    rw [List.map_map]
    exact List.map_id values
  rw [columnPsi, if_pos ⟨hfinite reference, hfinite current⟩, hvalues, hvalues]
  rfl

/-- Neither array is too short for the index. -/
def LongEnough (reference current : List ℚ) : Prop := 2 ≤ reference.length ∧ 1 ≤ current.length

theorem LongEnough.ne_nil (h : LongEnough reference current) : reference ≠ [] :=
  List.ne_nil_of_length_pos (Nat.lt_of_lt_of_le zero_lt_two h.1)

def proportions (values bins : List ℚ) : List ℝ := (clippedPct values bins).map ((↑) : ℚ → ℝ)

theorem clippedPct_pos {values bins : List ℚ} : ∀ p ∈ clippedPct values bins, 0 < p := by
  intro p hp
  obtain ⟨count, -, rfl⟩ := List.mem_map.mp hp
  exact lt_max_of_lt_right (by norm_num [binMargin])

theorem proportions_pos {values bins : List ℚ} : ∀ p ∈ proportions values bins, 0 < p := by
  intro p hp
  obtain ⟨q, hq, rfl⟩ := List.mem_map.mp hp
  exact_mod_cast clippedPct_pos q hq

theorem length_proportions (values bins : List ℚ) :
    (proportions values bins).length = bins.length - 1 := by
  rw [proportions, List.length_map, clippedPct, List.length_map, length_histogram]

theorem psi_of_not_longEnough (h : ¬ LongEnough reference current) : psi reference current = 0 := by
  rw [psi, computePsi, if_pos]
  unfold LongEnough at h
  omega

theorem psi_eq_divergence (h : LongEnough reference current) :
    psi reference current = divergence (proportions current (psiBins reference))
      (proportions reference (psiBins reference)) := by
  have hlong : ¬ (reference.length < 2 ∨ current.length < 1) := by
    have hreference := h.1
    have hcurrent := h.2
    omega
  rw [psi, computePsi, if_neg hlong, if_neg (not_lt.mpr (two_le_length_psiBins h.ne_nil)), divergence,
    proportions, proportions, List.zipWith_map]
  congr 2
  funext cur ref
  rw [divergenceTerm, realLog]
  push_cast
  rfl

end Index

end Chronoq.Ranker
