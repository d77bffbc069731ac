import Chronoq.Bench.PolicyBounds
import Chronoq.Foundations.QueueMonotone
import Chronoq.Foundations.Tables

/-! # `experiments/jct_vs_load.py`: the jobs of a load point, and FCFS along the sweep

`makeJobs` gives every load point the same durations and spreads the arrivals evenly, the closer the
higher the load. Under FCFS the start times follow the recursion of Kiefer and Wolfowitz along the trace, so
every single job waits no less at a higher load or with fewer workers. -/

namespace Chronoq.Bench
open Foundations

set_option autoImplicit false

/-- Without the metadata. -/
structure TraceJob where
  jobId : String
  taskType : String
  payloadSize : ℤ
  trueMs : ℚ
  arrivalMs : ℚ := 0
  priority : ℤ := 0
  deriving DecidableEq, Repr

/-- The job made of the trace job at a position. -/
def TraceJob.spaced (gap : ℚ) (tj : TraceJob × ℕ) : Job where
  jobId := tj.1.jobId
  taskType := tj.1.taskType
  payloadSize := tj.1.payloadSize
  trueMs := tj.1.trueMs
  arrivalMs := tj.2 * gap
  priority := tj.1.priority

/-- `_make_jobs` -/
def makeJobs (traceJobs : List TraceJob) (meanTrueMs load : ℚ) : Except PyException (List Job) :=
  if load = 0 then .error (.raised "ZeroDivisionError")
  else .ok (traceJobs.zipIdx.map (TraceJob.spaced (meanTrueMs / load)))

/-! ## FCFS on evenly spaced jobs -/

section Spaced
variable {traceJobs : List TraceJob} {gap gap' : ℚ} {n n' : ℕ}

theorem pairwise_zipIdx_snd {α : Type*} (l : List α) (k : ℕ) :
    (l.zipIdx k).Pairwise fun x y => x.2 < y.2 := by
  induction l generalizing k with
  | nil => exact List.Pairwise.nil
  | cons a l ih =>
    rw [List.zipIdx_cons]
    apply List.Pairwise.cons _ (ih (k + 1))
    intro y hy
    exact Nat.lt_of_succ_le (List.le_snd_of_mem_zipIdx hy)

theorem arrivalOrder_spaced (hgap : 0 ≤ gap) :
    Simulator.arrivalOrder (traceJobs.zipIdx.map (TraceJob.spaced gap)) =
      traceJobs.zipIdx.map (TraceJob.spaced gap) := by
  apply List.Pairwise.insertionSort_eq
  rw [List.pairwise_map]
  apply (pairwise_zipIdx_snd traceJobs 0).imp
  intro x y hxy
  exact mul_le_mul_of_nonneg_right (Nat.cast_le.mpr hxy.le) hgap

/-- The jobs with their start times, as the recursion along the trace has them. -/
def spacedSchedule (n : ℕ) (gap : ℚ) (traceJobs : List TraceJob) : List ((TraceJob × ℕ) × ℚ) :=
  kieferWolfowitz (fun tj => (TraceJob.spaced gap tj).arrivalMs) (fun tj => tj.1.trueMs)
    (List.replicate n 0) traceJobs.zipIdx

theorem map_jobId_spacedSchedule (hn : 1 ≤ n) :
    ((spacedSchedule n gap traceJobs).map fun s =>
      (TraceJob.spaced gap s.1).finished s.2).map Job.jobId = traceJobs.map TraceJob.jobId := by
  have hfree : List.replicate n (0 : ℚ) ≠ [] := by
    simp
    omega
  have hfst : (spacedSchedule n gap traceJobs).map Prod.fst = traceJobs.zipIdx :=
    map_fst_kieferWolfowitz _ _ hfree
  calc ((spacedSchedule n gap traceJobs).map fun s =>
        (TraceJob.spaced gap s.1).finished s.2).map Job.jobId
      = ((spacedSchedule n gap traceJobs).map Prod.fst).map fun tj => tj.1.jobId := by
        rw [List.map_map, List.map_map]
        rfl
    _ = (traceJobs.zipIdx.map Prod.fst).map TraceJob.jobId := by
        rw [hfst, List.map_map]
        rfl
    _ = traceJobs.map TraceJob.jobId := by rw [List.zipIdx_map_fst]

theorem exists_completes_spaced (hn : 1 ≤ n) (hgap : 0 ≤ gap)
    (htrue : ∀ tj ∈ traceJobs, 0 < tj.trueMs) :
    ∃ completed, Simulator.Completes ⟨FCFSScheduler, n, hn⟩ ()
        (traceJobs.zipIdx.map (TraceJob.spaced gap)) completed ∧
      completed.Perm ((spacedSchedule n gap traceJobs).map fun s =>
        (TraceJob.spaced gap s.1).finished s.2) := by
  have htrue' : ∀ job ∈ traceJobs.zipIdx.map (TraceJob.spaced gap), 0 < job.trueMs := by
    refine List.forall_mem_map.mpr fun tj htj => ?_
    exact htrue tj.1 (List.fst_mem_of_mem_zipIdx htj)
  obtain ⟨completed, calls, hran, hserved⟩ := Simulator.exists_ran_fcfs n hn htrue'
  rw [arrivalOrder_spaced hgap] at hserved
  have hnonneg : ∀ s ∈ calls.map Selection.started, 0 ≤ s.1.arrivalMs := by
    refine List.forall_mem_map.mpr fun c hc => ?_
    obtain ⟨tj, -, heq⟩ := List.mem_map.mp (hran.chosen_mem hc)
    show 0 ≤ c.chosen.arrivalMs
    rw [← heq]
    exact mul_nonneg (Nat.cast_nonneg _) hgap
  have hschedule := hran.schedule.congr fun s hs => Job.arrivesAt_of_nonneg (hnonneg s hs)
  have hkw := hschedule.eq_kieferWolfowitz hn hnonneg
  have htasks : (calls.map Selection.started).map Prod.fst =
      traceJobs.zipIdx.map (TraceJob.spaced gap) := by
    rw [List.map_map]
    exact hserved
  rw [htasks, kieferWolfowitz_map] at hkw
  refine ⟨completed, hran.completes, ?_⟩
  have hfinished : calls.map Selection.finished =
      (spacedSchedule n gap traceJobs).map fun s => (TraceJob.spaced gap s.1).finished s.2 := by
    have hstarted : calls.map Selection.finished =
        (calls.map Selection.started).map fun s => s.1.finished s.2 := by
      rw [List.map_map]
      rfl
    rw [hstarted, hkw, List.map_map]
    rfl
  rw [← hfinished]
  exact hran.finished

end Spaced

/-! ## Along the sweep -/

/-- The same job at two points of the sweep; it takes no less time at the second. -/
structure NoFaster (job job' : Job) : Prop where
  jobId : job.jobId = job'.jobId
  trueMs : job.trueMs = job'.trueMs
  waitMs : job.waitMs ≤ job'.waitMs
  jctMs : job.jctMs ≤ job'.jctMs

theorem spacedSchedule_forall₂ {traceJobs : List TraceJob} {gap gap' : ℚ} {n n' : ℕ} (hn : 1 ≤ n')
    (hnn : n' ≤ n) (hgap' : 0 ≤ gap') (hgap : gap' ≤ gap)
    (htrue : ∀ tj ∈ traceJobs, 0 < tj.trueMs) :
    List.Forall₂ (fun s s' => NoFaster ((TraceJob.spaced gap s.1).finished s.2)
        ((TraceJob.spaced gap' s'.1).finished s'.2))
      (spacedSchedule n gap traceJobs) (spacedSchedule n' gap' traceJobs) := by
  have hpairs : traceJobs.zipIdx.Pairwise fun x y =>
      (TraceJob.spaced gap' x).arrivalMs ≤ (TraceJob.spaced gap' y).arrivalMs ∧
      (TraceJob.spaced gap' y).arrivalMs - (TraceJob.spaced gap' x).arrivalMs ≤
        (TraceJob.spaced gap y).arrivalMs - (TraceJob.spaced gap x).arrivalMs := by
    apply (pairwise_zipIdx_snd traceJobs 0).imp
    intro x y hxy
    have hxy' : (x.2 : ℚ) ≤ y.2 := Nat.cast_le.mpr hxy.le
    constructor
    · exact mul_le_mul_of_nonneg_right hxy' hgap'
    · have hmul := mul_le_mul_of_nonneg_left hgap (sub_nonneg.mpr hxy')
      simp only [TraceJob.spaced]
      linarith
  have hlengths : ∀ x ∈ traceJobs.zipIdx, 0 ≤ x.1.trueMs ∧ x.1.trueMs ≤ x.1.trueMs := fun x hx =>
    ⟨(htrue x.1 (List.fst_mem_of_mem_zipIdx hx)).le, le_rfl⟩
  have hahead : ∀ x ∈ traceJobs.zipIdx.head?,
      Ahead (List.replicate n 0) (TraceJob.spaced gap x).arrivalMs (List.replicate n' 0)
        (TraceJob.spaced gap' x).arrivalMs := fun x _ =>
    ahead_replicate hnn (mul_nonneg (Nat.cast_nonneg _) (hgap'.trans hgap))
  have hforall := kieferWolfowitz_forall₂ hpairs hlengths (by simp; omega) (by simp; omega) hahead
  apply hforall.imp
  rintro ⟨tj, start⟩ ⟨tj', start'⟩ ⟨rfl, hle⟩
  refine ⟨rfl, rfl, hle, ?_⟩
  show start + tj.1.trueMs - (TraceJob.spaced gap tj).arrivalMs ≤
    start' + tj.1.trueMs - (TraceJob.spaced gap' tj).arrivalMs
  dsimp only at hle
  linarith

section NoFaster
variable {completed completed' l l' : List Job}

theorem times_le_of_noFaster (h : List.Forall₂ NoFaster l l') :
    List.Forall₂ (· ≤ ·) (l.map Job.jctMs) (l'.map Job.jctMs) := by
  rw [List.forall₂_map_left_iff, List.forall₂_map_right_iff]
  exact h.imp fun _ _ hjob => hjob.jctMs

theorem length_eq_of_noFaster (hperm : completed.Perm l) (hperm' : completed'.Perm l')
    (h : List.Forall₂ NoFaster l l') :
    (completed.map Job.jctMs).length = (completed'.map Job.jctMs).length := by
  rw [List.length_map, List.length_map, hperm.length_eq, hperm'.length_eq, h.length_eq]

theorem meanJct_le_of_noFaster (hperm : completed.Perm l) (hperm' : completed'.Perm l')
    (h : List.Forall₂ NoFaster l l') :
    meanJct (completed.map Job.jctMs) ≤ meanJct (completed'.map Job.jctMs) := by
  apply meanJct_le (length_eq_of_noFaster hperm hperm' h)
  rw [(hperm.map _).sum_eq, (hperm'.map _).sum_eq]
  exact (times_le_of_noFaster h).sum_le_sum

theorem percentileJct_le_of_noFaster (hperm : completed.Perm l) (hperm' : completed'.Perm l')
    (h : List.Forall₂ NoFaster l l') {p : ℚ} (hp : p ≤ 100) :
    ∃ v v', percentileJct (completed.map Job.jctMs) p = .ok v ∧
      percentileJct (completed'.map Job.jctMs) p = .ok v' ∧ v ≤ v' := by
  apply percentileJct_le (length_eq_of_noFaster hperm hperm' h) hp
  intro w hw
  apply hw.trans_le
  rw [(hperm.map _).countP_eq, (hperm'.map _).countP_eq]
  exact countP_le_of_forall₂ (times_le_of_noFaster h) w

end NoFaster

/-- The runs of FCFS at two points of the sweep. -/
theorem exists_noFaster {traceJobs : List TraceJob} {gap gap' : ℚ} {n n' : ℕ} (hn : 1 ≤ n)
    (hn' : 1 ≤ n') (hnn : n' ≤ n) (hgap' : 0 ≤ gap') (hgap : gap' ≤ gap)
    (htrue : ∀ tj ∈ traceJobs, 0 < tj.trueMs) :
    ∃ completed completed' l l',
      Simulator.Completes ⟨FCFSScheduler, n, hn⟩ () (traceJobs.zipIdx.map (TraceJob.spaced gap)) completed ∧
      Simulator.Completes ⟨FCFSScheduler, n', hn'⟩ () (traceJobs.zipIdx.map (TraceJob.spaced gap'))
        completed' ∧
      completed.Perm l ∧ completed'.Perm l' ∧ List.Forall₂ NoFaster l l' ∧
      l.map Job.jobId = traceJobs.map TraceJob.jobId := by
  obtain ⟨completed, hcompletes, hperm⟩ := exists_completes_spaced hn (hgap'.trans hgap) htrue
  obtain ⟨completed', hcompletes', hperm'⟩ := exists_completes_spaced hn' hgap' htrue
  have hforall := spacedSchedule_forall₂ hn' hnn hgap' hgap htrue
  rw [← List.forall₂_map_right_iff, ← List.forall₂_map_left_iff] at hforall
  exact ⟨completed, completed', _, _, hcompletes, hcompletes', hperm, hperm', hforall,
    map_jobId_spacedSchedule hn⟩

/-- Under FCFS every job takes no less time at a higher load or with fewer workers, so neither do the mean
and the percentiles. -/
theorem fcfs_monotone_in_load (traceJobs : List TraceJob) (meanTrueMs load load' : ℚ) (n n' : ℕ)
    (hn : 1 ≤ n) (hn' : 1 ≤ n') (hnn : n' ≤ n) (hmean : 0 ≤ meanTrueMs) (hload : 0 < load)
    (hle : load ≤ load') (htrue : ∀ tj ∈ traceJobs, 0 < tj.trueMs) :
    ∃ jobs jobs' completed completed',
      makeJobs traceJobs meanTrueMs load = .ok jobs ∧
      makeJobs traceJobs meanTrueMs load' = .ok jobs' ∧
      Simulator.Completes ⟨FCFSScheduler, n, hn⟩ () jobs completed ∧
      Simulator.Completes ⟨FCFSScheduler, n', hn'⟩ () jobs' completed' ∧
      (∃ l l', completed.Perm l ∧ completed'.Perm l' ∧ List.Forall₂ NoFaster l l' ∧
        l.map Job.jobId = traceJobs.map TraceJob.jobId) ∧
      meanJct (completed.map Job.jctMs) ≤ meanJct (completed'.map Job.jctMs) ∧
      ∀ p ≤ 100, ∃ v v', percentileJct (completed.map Job.jctMs) p = .ok v ∧
        percentileJct (completed'.map Job.jctMs) p = .ok v' ∧ v ≤ v' := by
  have hload' : 0 < load' := hload.trans_le hle
  have hgap' : 0 ≤ meanTrueMs / load' := div_nonneg hmean hload'.le
  have hgap : meanTrueMs / load' ≤ meanTrueMs / load := div_le_div_of_nonneg_left hmean hload hle
  obtain ⟨completed, completed', l, l', hcompletes, hcompletes', hperm, hperm', hforall, hids⟩ :=
    exists_noFaster hn hn' hnn hgap' hgap htrue
  exact ⟨_, _, completed, completed', if_neg hload.ne', if_neg hload'.ne', hcompletes, hcompletes',
    ⟨l, l', hperm, hperm', hforall, hids⟩, meanJct_le_of_noFaster hperm hperm' hforall,
    fun p hp => percentileJct_le_of_noFaster hperm hperm' hforall hp⟩

/-- A short job behind two longer ones. -/
def convoy : List TraceJob :=
  [{ jobId := "a", taskType := "transcode", payloadSize := 9, trueMs := 5 },
    { jobId := "b", taskType := "transcode", payloadSize := 7, trueMs := 4 },
    { jobId := "c", taskType := "resize", payloadSize := 1, trueMs := 1 }]

theorem fcfs_monotone_in_load_convoy :
    ∃ jobs jobs' completed completed', makeJobs convoy (10 / 3) (1 / 2) = .ok jobs ∧
      makeJobs convoy (10 / 3) 1 = .ok jobs' ∧
      Simulator.Completes ⟨FCFSScheduler, 2, by decide⟩ () jobs completed ∧
      Simulator.Completes ⟨FCFSScheduler, 1, le_rfl⟩ () jobs' completed' ∧
      meanJct (completed.map Job.jctMs) ≤ meanJct (completed'.map Job.jctMs) := by
  obtain ⟨jobs, jobs', completed, completed', h, h', hcompletes, hcompletes', -, hmean, -⟩ :=
    fcfs_monotone_in_load convoy (10 / 3) (1 / 2) 1 2 1 (by decide) le_rfl (by decide) (by norm_num)
      (by norm_num) (by norm_num) (by decide)
  exact ⟨jobs, jobs', completed, completed', h, h', hcompletes, hcompletes', hmean⟩

end Chronoq.Bench
