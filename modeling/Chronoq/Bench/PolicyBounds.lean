import Chronoq.Bench.NearestRank
import Chronoq.Bench.ShortestFirst
import Chronoq.Foundations.ScheduleBounds

/-! # What a policy can gain, and what it costs

Two runs over the same jobs, with any two schedulers. Their calls of `select` are schedules of the same
tasks, so the general bounds on schedules are bounds on the jobs that the runs hand back.

* `weighted_wait_independent_of_policy`: on one worker the waits, weighted with the durations, add up to
  the same.
* `endMs_bound_of_any_policy`: how late a run can end, against any other run.
* `fcfs_minimises_worst_jct`: on one worker no scheduler has a smaller largest completion time than FCFS. -/

namespace Chronoq.Bench
open Foundations

set_option autoImplicit false

def Job.waitMs (job : Job) : ℚ := job.startMs - job.arrivalMs

/-! ## Comparing percentiles -/

/-- One percentile is at most another if, wherever enough of the latter times are reached, enough of the
former are. -/
theorem percentileJct_le {times times' : List ℚ} {p : ℚ} (hlength : times.length = times'.length)
    (hp : p ≤ 100)
    (hcount : ∀ w, nearestRankIndex times.length p < times'.countP (fun x => x ≤ w) →
      nearestRankIndex times.length p < times.countP fun x => x ≤ w) :
    ∃ v v', percentileJct times p = .ok v ∧ percentileJct times' p = .ok v' ∧ v ≤ v' := by
  by_cases hnil : times = []
  · have hnil' : times' = [] := List.length_eq_zero_iff.mp (by rw [← hlength, hnil]; rfl)
    rw [hnil, hnil']
    exact ⟨0, 0, rfl, rfl, le_rfl⟩
  · have hnil' : times' ≠ [] := fun hnil' =>
      hnil (List.length_eq_zero_iff.mp (by rw [hlength, hnil']; rfl))
    obtain ⟨hi, hok⟩ := percentileJct_eq_ok hnil hp
    obtain ⟨hi', hok'⟩ := percentileJct_eq_ok hnil' hp
    refine ⟨_, _, hok, hok', ?_⟩
    have hsorted := List.pairwise_insertionSort (· ≤ ·) times
    have hsorted' := List.pairwise_insertionSort (· ≤ ·) times'
    have hreached := (lt_countP_le_iff hsorted' hi' _).mpr le_rfl
    rw [(List.perm_insertionSort (· ≤ ·) times').countP_eq] at hreached
    generalize (times'.insertionSort (· ≤ ·))[nearestRankIndex times'.length p] = w at hreached ⊢
    rw [← hlength] at hreached
    apply (lt_countP_le_iff hsorted hi w).mp
    rw [(List.perm_insertionSort (· ≤ ·) times).countP_eq]
    exact hcount w hreached

/-! ## Two runs of the same jobs -/

namespace Simulator.Ran

variable {σ σ' : Type} {sim : Simulator σ} {sim' : Simulator σ'} {schedulerState : σ}
  {schedulerState' : σ'} {jobs completed completed' : List Job} {calls calls' : List Selection}

theorem perm_fst (h : sim.Ran schedulerState jobs completed calls)
    (h' : sim'.Ran schedulerState' jobs completed' calls') :
    ((calls.map Selection.started).map Prod.fst).Perm
      ((calls'.map Selection.started).map Prod.fst) := by
  rw [List.map_map, List.map_map]
  exact h.served.trans h'.served.symm

theorem chosen_mem (h : sim.Ran schedulerState jobs completed calls) {c : Selection}
    (hc : c ∈ calls) : c.chosen ∈ jobs :=
  (h.served.trans (arrivalOrder_perm jobs)).subset (List.mem_map_of_mem hc)

theorem sum_trueMs_mul_waitMs (h : sim.Ran schedulerState jobs completed calls) :
    (completed.map fun job => job.trueMs * job.waitMs).sum =
      ((calls.map Selection.started).map fun s => s.1.trueMs * s.2).sum -
        (jobs.map fun job => job.trueMs * job.arrivalMs).sum := by
  have harrivals : (jobs.map fun job => job.trueMs * job.arrivalMs).sum =
      (calls.map fun c => c.chosen.trueMs * c.chosen.arrivalMs).sum := by
    have hserved := (h.served.trans (arrivalOrder_perm jobs)).map
      fun job => job.trueMs * job.arrivalMs
    rw [← hserved.sum_eq, List.map_map]
    rfl
  rw [(h.finished.map fun job => job.trueMs * job.waitMs).sum_eq, List.map_map, List.map_map,
    harrivals, eq_sub_iff_add_eq, ← List.sum_map_add]
  refine congrArg List.sum (List.map_congr_left fun c _ => ?_)
  show c.chosen.trueMs * (c.time - c.chosen.arrivalMs) + _ = c.chosen.trueMs * c.time
  ring

/-- A job of the run, as a task of the schedule. -/
theorem exists_started (h : sim.Ran schedulerState jobs completed calls) {job : Job}
    (hjob : job ∈ completed) : ∃ s ∈ calls.map Selection.started,
      job.endMs = s.2 + s.1.trueMs ∧ job.arrivalMs = s.1.arrivalMs := by
  obtain ⟨c, hc, rfl⟩ := List.mem_map.mp (h.finished.subset hjob)
  exact ⟨c.started, List.mem_map_of_mem hc, rfl, rfl⟩

theorem exists_completed (h : sim.Ran schedulerState jobs completed calls) {s : Job × ℚ}
    (hs : s ∈ calls.map Selection.started) : ∃ job ∈ completed,
      job.endMs = s.2 + s.1.trueMs ∧ job.arrivalMs = s.1.arrivalMs := by
  obtain ⟨c, hc, rfl⟩ := List.mem_map.mp hs
  exact ⟨c.finished, h.finished.symm.subset (List.mem_map_of_mem hc), rfl, rfl⟩

end Simulator.Ran

/-! ## The conservation law -/

/-- On one worker no policy changes the sum of the waits, weighted with the durations. -/
theorem weighted_wait_independent_of_policy {σ σ' : Type} (sim : Simulator σ) (sim' : Simulator σ')
    (schedulerState : σ) (schedulerState' : σ') (jobs : List Job)
    (hselect : sim.scheduler.Selects) (hselect' : sim'.scheduler.Selects)
    (hone : sim.nWorkers = 1) (hone' : sim'.nWorkers = 1) (hids : (jobs.map Job.jobId).Nodup)
    (htrue : ∀ job ∈ jobs, 0 < job.trueMs) :
    ∃ completed completed',
      sim.Serves schedulerState jobs completed ∧
      sim'.Serves schedulerState' jobs completed' ∧
      (completed.map fun job => job.trueMs * job.waitMs).sum =
        (completed'.map fun job => job.trueMs * job.waitMs).sum := by
  obtain ⟨ended, -, -, h⟩ := sim.exists_ran schedulerState hselect htrue
  obtain ⟨ended', -, -, h'⟩ := sim'.exists_ran schedulerState' hselect' htrue
  refine ⟨_, _, h.serves hids, h'.serves hids, ?_⟩
  have hschedule := h.schedule
  have hschedule' := h'.schedule
  rw [hone] at hschedule
  rw [hone'] at hschedule'
  rw [h.sum_trueMs_mul_waitMs, h'.sum_trueMs_mul_waitMs,
    hschedule.sum_length_mul_start hschedule' (h.perm_fst h')]

theorem weighted_wait_independent_of_policy_crossing :
    ∃ completed completed',
      Simulator.Serves ⟨FCFSScheduler, 1, le_rfl⟩ () crossingJobs completed ∧
      Simulator.Serves ⟨SJFOracleScheduler, 1, le_rfl⟩ () crossingJobs completed' ∧
      (completed.map fun job => job.trueMs * job.waitMs).sum =
        (completed'.map fun job => job.trueMs * job.waitMs).sum :=
  weighted_wait_independent_of_policy ⟨FCFSScheduler, 1, le_rfl⟩ ⟨SJFOracleScheduler, 1, le_rfl⟩ () ()
    crossingJobs fcfs_selects sjf_selects rfl rfl (by decide) (by decide)

/-! ## How late a run can end -/

/-- If one run is over by `C`, another one over the same jobs is by `(n + m) / n * C`, where `m` and `n`
are their workers; by `(n + m - 1) / n * C` if every job is there at the start. -/
theorem endMs_bound_of_any_policy {σ σ' : Type} (sim : Simulator σ) (sim' : Simulator σ')
    (schedulerState : σ) (schedulerState' : σ') (jobs : List Job)
    (hselect : sim.scheduler.Selects) (hselect' : sim'.scheduler.Selects)
    (hids : (jobs.map Job.jobId).Nodup) (htrue : ∀ job ∈ jobs, 0 < job.trueMs) :
    ∃ completed completed',
      sim.Serves schedulerState jobs completed ∧
      sim'.Serves schedulerState' jobs completed' ∧
      ∀ C, (∀ job ∈ completed', job.endMs ≤ C) → ∀ job ∈ completed,
        sim.nWorkers * job.endMs ≤ (sim.nWorkers + sim'.nWorkers) * C ∧
        ((∀ job ∈ jobs, job.arrivalMs = 0) →
          sim.nWorkers * job.endMs ≤ (sim.nWorkers + sim'.nWorkers - 1) * C) := by
  obtain ⟨ended, -, -, h⟩ := sim.exists_ran schedulerState hselect htrue
  obtain ⟨ended', -, -, h'⟩ := sim'.exists_ran schedulerState' hselect' htrue
  refine ⟨_, _, h.serves hids, h'.serves hids, fun C hC job hjob => ?_⟩
  obtain ⟨s, hs, hend, harr⟩ := h.exists_started hjob
  have hover : ∀ s ∈ ended'.selections.map Selection.started, s.2 + s.1.trueMs ≤ C := by
    intro s hs
    obtain ⟨job, hjob, hend, -⟩ := h'.exists_completed hs
    exact hend ▸ hC job hjob
  have hstart : ∀ s ∈ ended'.selections.map Selection.started, 0 ≤ s.1.arrivesAt :=
    fun s _ => le_max_left _ _
  obtain ⟨hbound, hzero⟩ := h.schedule.mul_finish_le h'.schedule sim.positive (h.perm_fst h')
    hstart hover hs
  rw [hend]
  refine ⟨hbound, fun hall => hzero ?_⟩
  obtain ⟨c, hc, rfl⟩ := List.mem_map.mp hs
  have hnone := hall _ (h.chosen_mem hc)
  exact (Job.arrivesAt_of_nonneg hnone.ge).trans hnone

theorem endMs_bound_of_any_policy_crossing :
    ∃ completed completed',
      Simulator.Serves ⟨FCFSScheduler, 1, le_rfl⟩ () crossingJobs completed ∧
      Simulator.Serves ⟨SJFOracleScheduler, 2, by decide⟩ () crossingJobs completed' ∧
      ∀ C, (∀ job ∈ completed', job.endMs ≤ C) → ∀ job ∈ completed, job.endMs ≤ 3 * C := by
  obtain ⟨completed, completed', h, h', hbound⟩ := endMs_bound_of_any_policy
    ⟨FCFSScheduler, 1, le_rfl⟩ ⟨SJFOracleScheduler, 2, by decide⟩ () () crossingJobs fcfs_selects
    sjf_selects (by decide) (by decide)
  refine ⟨completed, completed', h, h', fun C hC job hjob => ?_⟩
  have hle := (hbound C hC job hjob).1
  push_cast at hle
  linarith

/-! ## The longest completion time -/

/-- On one worker every other scheduler has a job that takes as long as the slowest under FCFS. -/
theorem fcfs_minimises_worst_jct {σ : Type} (sim : Simulator σ) (schedulerState : σ)
    (jobs : List Job) (hselect : sim.scheduler.Selects) (hone : sim.nWorkers = 1)
    (hids : (jobs.map Job.jobId).Nodup) (harrival : ∀ job ∈ jobs, 0 ≤ job.arrivalMs)
    (htrue : ∀ job ∈ jobs, 0 < job.trueMs) :
    ∃ completed fcfs,
      sim.Serves schedulerState jobs completed ∧
      Simulator.Serves ⟨FCFSScheduler, 1, le_rfl⟩ () jobs fcfs ∧
      (∀ job ∈ fcfs, ∃ job' ∈ completed, job.jctMs ≤ job'.jctMs) ∧
      ∃ v v', percentileJct (fcfs.map Job.jctMs) 100 = .ok v ∧
        percentileJct (completed.map Job.jctMs) 100 = .ok v' ∧ v ≤ v' := by
  obtain ⟨ended, -, -, h⟩ := sim.exists_ran schedulerState hselect htrue
  obtain ⟨fcfs, calls, hfcfs, hserved⟩ := Simulator.exists_ran_fcfs 1 le_rfl htrue
  have hschedule := h.schedule
  rw [hone] at hschedule
  have hsorted : ((calls.map Selection.started).map Prod.fst).Pairwise
      fun a b => a.arrivesAt ≤ b.arrivesAt := by
    rw [List.map_map]
    change (calls.map Selection.chosen).Pairwise _
    rw [hserved]
    exact (Simulator.byArrival_arrivalOrder jobs).imp Job.arrivesAt_mono
  have hnonneg : ∀ {calls : List Selection} {s : Job × ℚ}, (∀ c ∈ calls, c.chosen ∈ jobs) →
      s ∈ calls.map Selection.started → s.1.arrivesAt = s.1.arrivalMs := by
    intro calls s hmem hs
    obtain ⟨c, hc, rfl⟩ := List.mem_map.mp hs
    exact Job.arrivesAt_of_nonneg (harrival _ (hmem c hc))
  have hworst : ∀ job ∈ fcfs, ∃ job' ∈ ended.completed, job.jctMs ≤ job'.jctMs := by
    intro job hjob
    obtain ⟨s', hs', hend', harr'⟩ := hfcfs.exists_started hjob
    obtain ⟨s, hs, hle⟩ := hschedule.exists_waits_longer hfcfs.schedule (h.perm_fst hfcfs) hsorted hs'
    obtain ⟨job', hjob', hend, harr⟩ := h.exists_completed hs
    refine ⟨job', hjob', ?_⟩
    rw [hnonneg (fun c => hfcfs.chosen_mem) hs', hnonneg (fun c => h.chosen_mem) hs, ← hend, ← hend',
      ← harr, ← harr'] at hle
    exact hle
  refine ⟨_, fcfs, h.serves hids, hfcfs.serves hids, hworst, percentileJct_le ?_ le_rfl fun w hw => ?_⟩
  · rw [List.length_map, List.length_map, hfcfs.length_completed, h.length_completed]
  · -- all times of the run are reached, so all times of FCFS are
    have hpos := Nat.zero_lt_of_lt hw
    rw [nearestRankIndex_lt_iff _ hpos, div_self (by norm_num), one_mul, Nat.cast_le] at hw
    have hlength : fcfs.length = ended.completed.length :=
      hfcfs.length_completed.trans h.length_completed.symm
    have hfull : (ended.completed.map Job.jctMs).countP (fun x => x ≤ w) =
        (ended.completed.map Job.jctMs).length := by
      apply le_antisymm List.countP_le_length
      simpa [hlength] using hw
    have hall := List.countP_eq_length.mp hfull
    have hall' : (fcfs.map Job.jctMs).countP (fun x => x ≤ w) = (fcfs.map Job.jctMs).length := by
      apply List.countP_eq_length.mpr
      intro x hx
      obtain ⟨job, hjob, rfl⟩ := List.mem_map.mp hx
      obtain ⟨job', hjob', hle⟩ := hworst job hjob
      exact decide_eq_true (hle.trans (of_decide_eq_true (hall _ (List.mem_map_of_mem hjob'))))
    rw [hall']
    apply nearestRankIndex_lt _ le_rfl
    rw [hfull, List.length_map, ← hlength] at hpos
    rwa [List.length_map]

theorem fcfs_minimises_worst_jct_crossing :
    ∃ completed fcfs,
      Simulator.Serves ⟨SJFOracleScheduler, 1, le_rfl⟩ () crossingJobs completed ∧
      Simulator.Serves ⟨FCFSScheduler, 1, le_rfl⟩ () crossingJobs fcfs ∧
      ∀ job ∈ fcfs, ∃ job' ∈ completed, job.jctMs ≤ job'.jctMs := by
  obtain ⟨completed, fcfs, h, hfcfs, hworst, -⟩ := fcfs_minimises_worst_jct
    ⟨SJFOracleScheduler, 1, le_rfl⟩ () crossingJobs sjf_selects rfl (by decide) (by decide) (by decide)
  exact ⟨completed, fcfs, h, hfcfs, hworst⟩

end Chronoq.Bench
