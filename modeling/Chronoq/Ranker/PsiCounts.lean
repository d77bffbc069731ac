import Chronoq.Ranker.PsiBins

/-! # Which observations the index counts

`_compute_psi` widens the outer edges "to capture boundary values" and divides the counts of a batch by
its length, as if they added up to it. They do exactly when the batch stays within `binMargin` of the
range of the reference (`counts_every_observation_iff`): `np.histogram` ignores a value further out, so
mass that leaves the range is lost, and the index may even fall. -/

namespace Chronoq.Ranker
open Foundations

set_option autoImplicit false

/-- `current` is `before` with some values moved out of the range of the reference. -/
def MovedOut (reference before current : List ℚ) : Prop :=
  List.Forall₂ (fun v v' => v' = v ∨ InRange reference v ∧ ¬ InRange reference v') before current ∧
    before ≠ current

structure CountsEveryObservation (reference current : List ℚ) : Prop where
  ofReference : (histogram reference (psiBins reference)).sum = reference.length
  ofCurrent : (histogram current (psiBins reference)).sum = current.length
  oneBin : ∀ v, v ∈ reference ∨ v ∈ current → (histogram [v] (psiBins reference)).sum = 1
  proportions : ((histogram current (psiBins reference)).map fun (count : ℕ) =>
    (count : ℚ) / current.length).sum = 1
  raises : ∀ before, MovedOut reference before current → psi reference before < psi reference current

section Counts
variable {reference current : List ℚ}

theorem histogram_singleton_sum (hne : reference ≠ []) {v : ℚ} (h : InRange reference v) :
    (histogram [v] (psiBins reference)).sum = 1 := by
  rw [sum_histogram hne, List.countP_cons_of_pos (by simpa using h), List.countP_nil]

/-- A batch within the range did not come from moving values out of it. -/
theorem not_movedOut {before : List ℚ} (h : ∀ v ∈ current, InRange reference v) :
    ¬ MovedOut reference before current := by
  rintro ⟨hmoved, hne⟩
  have hsame : List.Forall₂ (· = ·) before current := by
    clear hne
    induction hmoved with
    | nil => exact .nil
    | cons hvv' _ ih =>
      rw [List.forall_mem_cons] at h
      rcases hvv' with rfl | ⟨-, hout⟩
      · exact .cons rfl (ih h.2)
      · exact absurd h.1 hout
  rw [List.forall₂_eq_eq_eq] at hsame
  exact hne hsame

theorem sum_proportions (h : LongEnough reference current)
    (hin : ∀ v ∈ current, InRange reference v) :
    ((histogram current (psiBins reference)).map fun (count : ℕ) =>
      (count : ℚ) / current.length).sum = 1 := by
  have hpos : (0 : ℚ) < current.length := Nat.cast_pos.mpr h.2
  have hsum := (sum_histogram_eq_length_iff h.ne_nil).mpr hin
  simp only [div_eq_mul_inv]
  rw [List.sum_map_mul_right, ← Nat.cast_list_sum, hsum, mul_inv_cancel₀ hpos.ne']

end Counts

theorem counts_every_observation_iff (reference current : List ℚ)
    (h : 2 ≤ reference.length ∧ 1 ≤ current.length) :
    CountsEveryObservation reference current ↔ ∀ v ∈ current, InRange reference v := by
  have hlong : LongEnough reference current := h
  have hne := hlong.ne_nil
  constructor
  · intro hcounts
    exact (sum_histogram_eq_length_iff hne).mp hcounts.ofCurrent
  · intro hin
    exact {
      ofReference := sum_histogram_reference hne
      ofCurrent := (sum_histogram_eq_length_iff hne).mpr hin
      oneBin := fun v hv => histogram_singleton_sum hne (hv.elim inRange_of_mem (hin v))
      proportions := sum_proportions hlong hin
      raises := fun before hmoved => absurd hmoved (not_movedOut hin) }

theorem counts_every_observation_iff_in_range : CountsEveryObservation [0, 1] [1 / 2, 1, 1] :=
  (counts_every_observation_iff [0, 1] [1 / 2, 1, 1] ⟨by decide, by decide⟩).mpr (by decide +kernel)

/-- One of four values leaves the range of the reference: three are counted, and the index falls. -/
theorem moved_value_not_counted : ¬ CountsEveryObservation [0, 1] [0, 0, 5, 1] ∧
    psi [0, 1] [0, 0, 5, 1] < psi [0, 1] [0, 0, 0, 1] := by
  constructor
  · intro hcounts
    have hin := (sum_histogram_eq_length_iff (List.cons_ne_nil 0 [1])).mp hcounts.ofCurrent 5 (by simp)
    revert hin
    decide +kernel
  · have hreference : clippedPct [0, 1] (psiBins [0, 1]) = 1 / 2 ::
        (List.replicate 8 binMargin ++ [1 / 2]) := by decide +kernel
    have hbefore : clippedPct [0, 0, 0, 1] (psiBins [0, 1]) = 3 / 4 ::
        (List.replicate 8 binMargin ++ [1 / 4]) := by decide +kernel
    have hafter : clippedPct [0, 0, 5, 1] (psiBins [0, 1]) = 1 / 2 ::
        (List.replicate 8 binMargin ++ [1 / 4]) := by decide +kernel
    rw [psi_eq_divergence ⟨by decide, by decide⟩, psi_eq_divergence ⟨by decide, by decide⟩,
      proportions, proportions, proportions, hreference, hbefore, hafter, List.map_cons, List.map_cons,
      List.map_cons, divergence_cons, divergence_cons, divergenceTerm_self]
    have hterm : 0 < divergenceTerm ((3 / 4 : ℚ) : ℝ) ((1 / 2 : ℚ) : ℝ) :=
      divergenceTerm_pos (by norm_num) (by norm_num) (by norm_num)
    linarith

end Chronoq.Ranker
