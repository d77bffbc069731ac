import Chronoq.Bench.FirstCome

/-! # SJF against FCFS on one worker

At every call of `select` the jobs handed over are a first part of the arrival order, and SJF takes the
shortest of those that wait. So the first `k` jobs it serves are together no longer than the first `k`
that arrive, and it does not come to its `k`-th job with less idle time than FCFS does. -/

namespace Chronoq.Bench
open Foundations

set_option autoImplicit false

/-! ## The mean completion time -/

def Job.jctMs (job : Job) : ℚ := job.endMs - job.arrivalMs

def SimResult.jctMs (result : SimResult) : List ℚ := result.jobs.map Job.jctMs

/-- `mean_jct` -/
def meanJct (completionTimesMs : List ℚ) : ℚ :=
  if completionTimesMs = [] then 0 else completionTimesMs.sum / completionTimesMs.length

theorem meanJct_le {times times' : List ℚ} (hlength : times.length = times'.length)
    (hsum : times.sum ≤ times'.sum) : meanJct times ≤ meanJct times' := by
  unfold meanJct
  by_cases hnil : times = []
  · have hnil' : times' = [] := List.length_eq_zero_iff.mp (by rw [← hlength, hnil, List.length_nil])
    rw [if_pos hnil, if_pos hnil']
  · have hnil' : times' ≠ [] := fun h =>
      hnil (List.length_eq_zero_iff.mp (by rw [hlength, h, List.length_nil]))
    rw [if_neg hnil, if_neg hnil', hlength]
    exact div_le_div_of_nonneg_right hsum (Nat.cast_nonneg _)

namespace Simulator.Ran
open Simulation

variable {σ : Type} {sim : Simulator σ} {schedulerState : σ} {jobs completed : List Job}
  {calls : List Selection}

theorem length_completed (h : sim.Ran schedulerState jobs completed calls) :
    completed.length = jobs.length := by
  have hserved := (h.served.trans (arrivalOrder_perm jobs)).length_eq
  rw [List.length_map] at hserved
  rw [h.finished.length_eq, List.length_map, hserved]

theorem sum_jctMs (h : sim.Ran schedulerState jobs completed calls) :
    (completed.map Job.jctMs).sum =
      ((calls.map Selection.started).map fun s => s.2 + s.1.trueMs).sum -
        (jobs.map Job.arrivalMs).sum := by
  have harrivals : (jobs.map Job.arrivalMs).sum = (calls.map fun c => c.chosen.arrivalMs).sum := by
    rw [← ((h.served.trans (arrivalOrder_perm jobs)).map Job.arrivalMs).sum_eq, List.map_map]
    rfl
  rw [(h.finished.map Job.jctMs).sum_eq, List.map_map, List.map_map, harrivals, eq_sub_iff_add_eq,
    ← List.sum_map_add]
  refine congrArg List.sum (List.map_congr_left fun c _ => ?_)
  exact sub_add_cancel (c.time + c.chosen.trueMs) c.chosen.arrivalMs

end Simulator.Ran

/-! ## The shortest of those handed over -/

theorem leastOfPrefix_of_called {order before : List Job} {c : Selection}
    (h : Simulation.Called SJFOracleScheduler order before c) :
    LeastOfPrefix Job.trueMs order before c.chosen := by
  obtain ⟨⟨seen, hseen, hperm⟩, hmem, state, state', hselect⟩ := h
  refine ⟨c.waiting, seen.length, ?_, hmem, minJob_le (minJob_of_select hselect)⟩
  rw [← List.prefix_iff_eq_take.mp hseen]
  exact hperm

theorem sjf_meanJct_le_fcfs (jobs : List Job) (htrue : ∀ job ∈ jobs, 0 < job.trueMs) :
    ∃ sjf fcfs : SimResult,
      (∀ fuel > 6 * jobs.length + 2,
        Simulator.run ⟨SJFOracleScheduler, 1, le_rfl⟩ () fuel jobs = some (.ok sjf)) ∧
      (∀ fuel > 6 * jobs.length + 2,
        Simulator.run ⟨FCFSScheduler, 1, le_rfl⟩ () fuel jobs = some (.ok fcfs)) ∧
      meanJct sjf.jctMs ≤ meanJct fcfs.jctMs := by
  obtain ⟨ended, -, -, hsjf⟩ :=
    Simulator.exists_ran ⟨SJFOracleScheduler, 1, le_rfl⟩ () sjf_selects htrue
  obtain ⟨completed, calls, hfcfs, hserved⟩ := Simulator.exists_ran_fcfs 1 le_rfl htrue
  refine ⟨_, _, hsjf.completes, hfcfs.completes, ?_⟩
  have htasks : (calls.map Selection.started).map Prod.fst = Simulator.arrivalOrder jobs := by
    rw [List.map_map]
    exact hserved
  have htasks' : (ended.selections.map Selection.started).map Prod.fst =
      ended.selections.map Selection.chosen := by
    rw [List.map_map]
    rfl
  have hsum : ((ended.selections.map Selection.started).map fun s => s.2 + s.1.trueMs).sum ≤
      ((calls.map Selection.started).map fun s => s.2 + s.1.trueMs).sum := by
    refine hsjf.schedule.sum_finish_le hfcfs.schedule ?_ ?_ ?_
    · rw [htasks, htasks']
      exact hsjf.served
    · rw [htasks]
      exact (Simulator.byArrival_arrivalOrder jobs).imp Job.arrivesAt_mono
    · rw [htasks, htasks']
      exact (hsjf.each.imp fun before c => leastOfPrefix_of_called).map
  refine meanJct_le ?_ ?_
  · simp only [SimResult.jctMs, List.length_map]
    rw [hsjf.length_completed, hfcfs.length_completed]
  · simp only [SimResult.jctMs]
    rw [hsjf.sum_jctMs, hfcfs.sum_jctMs]
    exact sub_le_sub_right hsum _

theorem sjf_meanJct_le_fcfs_crossing :
    ∃ sjf fcfs : SimResult,
      Simulator.run ⟨SJFOracleScheduler, 1, le_rfl⟩ () 21 crossingJobs = some (.ok sjf) ∧
      Simulator.run ⟨FCFSScheduler, 1, le_rfl⟩ () 21 crossingJobs = some (.ok fcfs) ∧
      meanJct sjf.jctMs ≤ meanJct fcfs.jctMs := by
  obtain ⟨sjf, fcfs, hsjf, hfcfs, hle⟩ := sjf_meanJct_le_fcfs crossingJobs (by decide)
  exact ⟨sjf, fcfs, hsjf 21 (by decide), hfcfs 21 (by decide), hle⟩

end Chronoq.Bench
