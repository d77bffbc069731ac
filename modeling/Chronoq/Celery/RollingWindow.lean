import Chronoq.Celery.Rolling
import Chronoq.Foundations.OrderStatistics

/-! # What the rolling statistics are statistics of

`record` and `seed` are the only calls that add observations, and each block under the lock adds one. So
after any calls the buffer of a type holds the last `window` values given for it
(`TypeStatsTracker.buffer_after`), and the snapshot is the mean, the 95th percentile and the number of
these. -/

namespace Chronoq.Celery
open Foundations

set_option autoImplicit false

namespace TypeStatsTracker

/-- A call that adds observations. -/
inductive Call
  | record (taskType : String) (actualMs : ℚ)
  | seed (typeMeans : List (String × ℚ))

def call (t : TypeStatsTracker) : Call → TypeStatsTracker
  | .record taskType actualMs => t.record taskType actualMs
  | .seed typeMeans => t.seed typeMeans

def after (t : TypeStatsTracker) (calls : List Call) : TypeStatsTracker := calls.foldl call t

/-! ## The values given for a type -/

def Call.observations : Call → List (String × ℚ)
  | .record taskType actualMs => [(taskType, actualMs)]
  | .seed typeMeans => typeMeans

def valuesOf (taskType : String) (observations : List (String × ℚ)) : List ℚ :=
  (observations.filter fun o => o.1 = taskType).map Prod.snd

def given (taskType : String) (calls : List Call) : List ℚ :=
  valuesOf taskType (calls.flatMap Call.observations)

/-- The last `window` values given for a type. -/
def recent (window : ℕ) (taskType : String) (calls : List Call) : List ℚ :=
  (given taskType calls).rtake window

theorem valuesOf_append (taskType : String) (os os' : List (String × ℚ)) :
    valuesOf taskType (os ++ os') = valuesOf taskType os ++ valuesOf taskType os' := by
  simp [valuesOf]

theorem length_recent (window : ℕ) (taskType : String) (calls : List Call) :
    (recent window taskType calls).length = min window (given taskType calls).length := by
  rw [recent, List.rtake, List.length_drop]
  omega

theorem recent_eq_nil_iff {window : ℕ} (hw : 1 ≤ window) (taskType : String) (calls : List Call) :
    recent window taskType calls = [] ↔ given taskType calls = [] := by
  rw [← List.length_eq_zero_iff, length_recent, ← List.length_eq_zero_iff]
  omega

/-! ## One block under the lock -/

theorem record_buffer_of_ne (t : TypeStatsTracker) {taskType taskType' : String} (x : ℚ)
    (h : taskType' ≠ taskType) : (t.record taskType x).buffer taskType' = t.buffer taskType' := by
  rw [buffer, buffer, record, Finmap.lookup_insert_of_ne _ h]

/-- The buffers hold the last values of `os`. -/
def Holds (t : TypeStatsTracker) (os : List (String × ℚ)) : Prop :=
  ∀ taskType, t.buffer taskType = (valuesOf taskType os).rtake t.window

theorem holds_new (window : ℕ) : (new window).Holds [] := by
  intro taskType
  simp [buffer, new, valuesOf, List.rtake]

theorem Holds.record {t : TypeStatsTracker} {os : List (String × ℚ)} (h : t.Holds os) (o : String × ℚ) :
    (t.record o.1 o.2).Holds (os ++ [o]) := by
  intro taskType
  rw [record_window, valuesOf_append]
  by_cases htype : taskType = o.1
  · subst htype
    have hone : valuesOf o.1 [o] = [o.2] := by simp [valuesOf]
    rw [record_buffer, h o.1, hone, pushBounded_rtake]
  · have hnone : valuesOf taskType [o] = [] := by simp [valuesOf, Ne.symm htype]
    rw [record_buffer_of_ne t o.2 htype, h taskType, hnone, List.append_nil]

/-! ## A run of calls -/

/-- Whatever the calls are, they record their observations one by one. -/
theorem call_eq_foldl (t : TypeStatsTracker) (c : Call) :
    t.call c = c.observations.foldl (fun t o => t.record o.1 o.2) t := by
  cases c with
  | record taskType actualMs => rfl
  | seed typeMeans => rfl

theorem Holds.foldl {t : TypeStatsTracker} {os : List (String × ℚ)} (h : t.Holds os)
    (os' : List (String × ℚ)) :
    (os'.foldl (fun t o => t.record o.1 o.2) t).Holds (os ++ os') ∧
      (os'.foldl (fun t o => t.record o.1 o.2) t).window = t.window := by
  induction os' generalizing t os with
  | nil => exact ⟨by rwa [List.append_nil], rfl⟩
  | cons o os' ih =>
    obtain ⟨hholds, hwindow⟩ := ih (h.record o)
    rw [List.append_assoc] at hholds
    exact ⟨hholds, hwindow⟩

theorem Holds.after {t : TypeStatsTracker} {os : List (String × ℚ)} (h : t.Holds os)
    (calls : List Call) : (t.after calls).Holds (os ++ calls.flatMap Call.observations) ∧
      (t.after calls).window = t.window := by
  induction calls generalizing t os with
  | nil => exact ⟨by simpa [TypeStatsTracker.after] using h, rfl⟩
  | cons c calls ih =>
    obtain ⟨hstep, hwindow⟩ := h.foldl c.observations
    rw [← call_eq_foldl] at hstep hwindow
    obtain ⟨hholds, hwindow'⟩ := ih hstep
    rw [List.append_assoc] at hholds
    exact ⟨hholds, hwindow'.trans hwindow⟩

theorem buffer_after (window : ℕ) (calls : List Call) (taskType : String) :
    ((new window).after calls).buffer taskType = recent window taskType calls := by
  obtain ⟨hholds, hwindow⟩ := (holds_new window).after calls
  rw [hholds taskType, hwindow]
  rfl

/-- A snapshot is taken of the recent values; a type that was given none reads as unknown. -/
theorem snapshot_after (window : ℕ) (calls : List Call) (taskType : String) :
    ((new window).after calls).snapshot taskType =
      ⟨mean (recent window taskType calls), percentile 95 (recent window taskType calls),
        (recent window taskType calls).length⟩ := by
  rw [snapshot, buffer_after]
  split
  · next hnil => simp [hnil, percentile]
  · rfl

/-! ## The statistics -/

theorem rolling_statistics (window : ℕ) (hw : 1 ≤ window) (calls : List Call) (taskType : String) :
    let values := recent window taskType calls
    let sorted := values.insertionSort (· ≤ ·)
    let s := ((new window).after calls).snapshot taskType
    s = ⟨mean values, percentile 95 values, values.length⟩ ∧
    s.count = min window (given taskType calls).length ∧
    (∀ a b, values ≠ [] → (∀ x ∈ values, a ≤ x ∧ x ≤ b) →
      (a ≤ s.mean ∧ s.mean ≤ b) ∧ (a ≤ s.p95 ∧ s.p95 ≤ b)) ∧
    (∀ i (h : i + 1 < sorted.length), (i : ℚ) ≤ 95 / 100 * (s.count - 1) →
      95 / 100 * (s.count - 1 : ℚ) < i + 1 →
      s.p95 = sorted[i] + (95 / 100 * (s.count - 1) - i) * (sorted[i + 1] - sorted[i])) ∧
    (∀ x, values = [x] → s.p95 = x) ∧
    (given taskType calls = [] → s = ⟨0, 0, 0⟩) ∧
    (∀ calls', given taskType calls' = given taskType calls →
      ((new window).after calls').snapshot taskType = s) := by
  dsimp only
  rw [snapshot_after window calls taskType]
  refine ⟨rfl, length_recent window taskType calls, fun a b hne hbounds => ?_,
    fun i hi hlow hhigh => percentile_eq_interpolation hi hlow hhigh, fun x hx => ?_, fun hnone => ?_,
    fun calls' hsame => ?_⟩
  · exact ⟨mean_between hne hbounds, percentile_mem_Icc (by norm_num) (by norm_num) hne hbounds⟩
  · have hbounds : x ≤ percentile 95 [x] ∧ percentile 95 [x] ≤ x :=
      percentile_mem_Icc (by norm_num) (by norm_num) (List.cons_ne_nil x []) (by simp)
    rw [hx]
    exact le_antisymm hbounds.2 hbounds.1
  · simp [(recent_eq_nil_iff hw taskType calls).mpr hnone, percentile]
  · rw [snapshot_after, recent, hsame]
    rfl

theorem rolling_statistics_window_two :
    ((new 2).after [.record "resize" 1, .seed [("ocr", 9), ("resize", 2)], .record "resize" 3]).snapshot
      "resize" = ⟨mean [2, 3], percentile 95 [2, 3], 2⟩ :=
  (rolling_statistics 2 (by decide)
    [.record "resize" 1, .seed [("ocr", 9), ("resize", 2)], .record "resize" 3] "resize").1

end TypeStatsTracker

end Chronoq.Celery
