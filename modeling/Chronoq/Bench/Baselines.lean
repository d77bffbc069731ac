import Chronoq.Bench.Simulator

/-! # `baselines/`: FCFS and the SJF oracle

Both are `min(waiting, key=...)`, which takes the first of several least jobs and raises on an empty
list. -/

namespace Chronoq.Bench
open Foundations

set_option autoImplicit false

/-- `min(waiting, key=key)` -/
def minJob (key : Job → ℚ) (waiting : List Job) : Except PyException Job :=
  match extractLeast key waiting with
  | none => .error (.raised "ValueError")
  | some (job, _) => .ok job

def FCFSScheduler : BaseScheduler Unit where
  name := "fcfs"
  select _ waiting := (minJob Job.arrivalMs waiting).map fun job => (job, ())

def SJFOracleScheduler : BaseScheduler Unit where
  name := "sjf_oracle"
  select _ waiting := (minJob Job.trueMs waiting).map fun job => (job, ())

theorem minJob_eq_ok (key : Job → ℚ) {waiting : List Job} (h : waiting ≠ []) :
    ∃ job ∈ waiting, minJob key waiting = .ok job ∧ ∀ other ∈ waiting, key job ≤ key other := by
  cases hleast : extractLeast key waiting with
  | none => exact absurd ((extractLeast_eq_none_iff key).mp hleast) h
  | some least =>
    obtain ⟨job, rest⟩ := least
    refine ⟨job, extractLeast_mem key hleast, ?_, extractLeast_le key hleast⟩
    rw [minJob, hleast]

theorem minJob_le {key : Job → ℚ} {waiting : List Job} {job : Job} (h : minJob key waiting = .ok job) :
    ∀ other ∈ waiting, key job ≤ key other := by
  rw [minJob] at h
  split at h
  · cases h
  · next hleast =>
    cases h
    exact extractLeast_le key hleast

/-- The first of a list in ascending order is taken. -/
theorem minJob_cons {key : Job → ℚ} {job : Job} {waiting : List Job}
    (h : ∀ other ∈ waiting, key job ≤ key other) : minJob key (job :: waiting) = .ok job := by
  rw [minJob, extractLeast_cons_of_forall_le key h]

theorem minJob_of_select {key : Job → ℚ} {waiting : List Job} {chosen : Job} {state : Unit}
    (h : (minJob key waiting).map (fun job => (job, ())) = .ok (chosen, state)) :
    minJob key waiting = .ok chosen := by
  cases hmin : minJob key waiting with
  | error exc =>
    rw [hmin] at h
    cases h
  | ok job =>
    rw [hmin] at h
    cases h
    rfl

theorem fcfs_selects : FCFSScheduler.Selects := by
  intro state waiting h
  obtain ⟨job, hmem, hmin, -⟩ := minJob_eq_ok Job.arrivalMs h
  refine ⟨job, hmem, (), ?_⟩
  show (minJob Job.arrivalMs waiting).map _ = _
  rw [hmin]
  rfl

theorem sjf_selects : SJFOracleScheduler.Selects := by
  intro state waiting h
  obtain ⟨job, hmem, hmin, -⟩ := minJob_eq_ok Job.trueMs h
  refine ⟨job, hmem, (), ?_⟩
  show (minJob Job.trueMs waiting).map _ = _
  rw [hmin]
  rfl

end Chronoq.Bench
