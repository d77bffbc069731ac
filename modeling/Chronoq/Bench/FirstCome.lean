import Chronoq.Bench.WorkConservation

/-! # FCFS is the recursion of Kiefer and Wolfowitz

FCFS takes the head of the waiting list, since the jobs are handed over in arrival order and `min` takes
the first of several least ones. So the calls of `select` take the jobs in stable arrival order, and
along the order of service the start times of every schedule follow the recursion on the times at which
the workers become free.

* `InArrivalOrder`: the jobs chosen, waiting and to come are together the arrival order.
* `Simulator.exists_ran_fcfs`: a run of FCFS serves the jobs in that order. -/

namespace Chronoq.Bench
open Foundations

set_option autoImplicit false

open SimEvent

namespace Simulation
variable {s t : Simulation Unit} {order jobs : List Job} {n : ℕ}

def InArrivalOrder (order : List Job) (upcomingJobs : Multiset (List Job)) (s : Simulation Unit) : Prop :=
  ∃ future, order = s.selections.map Selection.chosen ++ s.waiting ++ future ∧
    upcomingJobs = batch future

theorem InArrivalOrder.queued {event : SimEvent} (h : Queued FCFSScheduler s t event)
    (horder : ByArrival order)
    (hs : InArrivalOrder order (upcoming event + s.agenda.total upcoming) s) :
    InArrivalOrder order (t.agenda.total upcoming) t := by
  obtain ⟨future, hsplit, hfuture⟩ := hs
  cases h with
  | handedOver job arrivals hwaiting hselections hupcoming =>
    obtain ⟨rfl, hrest⟩ := eq_of_batch_add hfuture
    refine ⟨arrivals, ?_, by rw [hupcoming, hrest, add_zero]⟩
    rw [hwaiting, hselections, hsplit]
    simp
  | @selected worker chosen state hselect hmem hwaiting hselections hupcoming =>
    refine ⟨future, ?_, by rw [hupcoming, ← hfuture]; exact (zero_add _).symm⟩
    cases hlist : s.waiting with
    | nil =>
      rw [hlist] at hmem
      cases hmem
    | cons head rest =>
      -- the waiting list is a part of the arrival order, so its head arrived first
      rw [hlist] at hsplit hwaiting hselect hselections
      have hsorted : ByArrival (head :: rest) := by
        rw [ByArrival, hsplit, List.append_assoc] at horder
        exact (List.pairwise_append.mp (List.pairwise_append.mp horder).2.1).1
      have hhead := minJob_cons (List.pairwise_cons.mp hsorted).1
      rw [minJob_of_select hselect, Except.ok.injEq] at hhead
      subst hhead
      rw [hwaiting, hselections, hsplit, List.erase_cons_head]
      simp
  | unchanged hwaiting hselections hupcoming =>
    refine ⟨future, ?_, hupcoming.trans hfuture⟩
    rw [hwaiting, hselections]
    exact hsplit

theorem InArrivalOrder.step (h : InArrivalOrder order (s.agenda.total upcoming) s)
    (horder : ByArrival order) (hstep : s.step FCFSScheduler = some (.ok t)) :
    InArrivalOrder order (t.agenda.total upcoming) t := by
  obtain ⟨e, b, hnext, hhandled⟩ := step_handled hstep
  rw [Agenda.total_next upcoming hnext] at h
  exact InArrivalOrder.queued (s := { s with agenda := b }) (queued_of_handled hhandled) horder h

end Simulation

namespace Simulator
open Simulation

theorem exists_ran_fcfs (nWorkers : ℕ) (hn : 1 ≤ nWorkers) {jobs : List Job}
    (htrue : ∀ job ∈ jobs, 0 < job.trueMs) :
    ∃ completed calls, Ran ⟨FCFSScheduler, nWorkers, hn⟩ () jobs completed calls ∧
      calls.map Selection.chosen = arrivalOrder jobs := by
  obtain ⟨ended, ⟨steps, hsteps⟩, -, hran⟩ :=
    exists_ran ⟨FCFSScheduler, nWorkers, hn⟩ () fcfs_selects htrue
  refine ⟨_, _, hran, ?_⟩
  have hinitial : InArrivalOrder (arrivalOrder jobs)
      ((initial ⟨FCFSScheduler, nWorkers, hn⟩ () jobs).agenda.total upcoming)
      (initial ⟨FCFSScheduler, nWorkers, hn⟩ () jobs) :=
    ⟨arrivalOrder jobs, rfl, total_initial _ () jobs upcoming⟩
  obtain ⟨future, hsplit, -⟩ := hsteps.preserves
    (P := fun s => InArrivalOrder (arrivalOrder jobs) (s.agenda.total upcoming) s)
    (fun _ _ _ hstep h => h.step (byArrival_arrivalOrder jobs) hstep) hinitial
  -- everything is chosen at the end
  have hlength := congrArg List.length hsplit
  rw [← hran.served.length_eq, List.length_append, List.length_append] at hlength
  have hwaiting : ended.waiting = [] := List.length_eq_zero_iff.mp (by omega)
  have hfuture : future = [] := List.length_eq_zero_iff.mp (by omega)
  rw [hwaiting, hfuture, List.append_nil, List.append_nil] at hsplit
  exact hsplit.symm

end Simulator

/-- The jobs in stable arrival order with the start times of the recursion, for `nWorkers` workers that
are free at the start. -/
def fcfsSchedule (nWorkers : ℕ) (jobs : List Job) : List (Job × ℚ) :=
  kieferWolfowitz Job.arrivalMs Job.trueMs (List.replicate nWorkers 0) (Simulator.arrivalOrder jobs)

theorem fcfs_eq_kieferWolfowitz (nWorkers : ℕ) (hn : 1 ≤ nWorkers) (jobs : List Job)
    (harrival : ∀ job ∈ jobs, 0 ≤ job.arrivalMs) (htrue : ∀ job ∈ jobs, 0 < job.trueMs) :
    ∃ completed, Simulator.Completes ⟨FCFSScheduler, nWorkers, hn⟩ () jobs completed ∧
      completed.Perm ((fcfsSchedule nWorkers jobs).map fun s => s.1.finished s.2) ∧
      (fcfsSchedule nWorkers jobs).map Prod.fst = Simulator.arrivalOrder jobs ∧
      (fcfsSchedule nWorkers jobs).Pairwise fun (s s' : Job × ℚ) => s.2 ≤ s'.2 := by
  obtain ⟨completed, calls, hran, hserved⟩ := Simulator.exists_ran_fcfs nWorkers hn htrue
  have hnonneg : ∀ s ∈ calls.map Selection.started, 0 ≤ s.1.arrivalMs := by
    refine List.forall_mem_map.mpr fun c hc => harrival _ ?_
    exact (hran.served.trans (Simulator.arrivalOrder_perm jobs)).subset (List.mem_map_of_mem hc)
  have hschedule := hran.schedule.congr fun s hs => Job.arrivesAt_of_nonneg (hnonneg s hs)
  have hkw := hschedule.eq_kieferWolfowitz hn hnonneg
  have htasks : (calls.map Selection.started).map Prod.fst = Simulator.arrivalOrder jobs := by
    rw [List.map_map]
    exact hserved
  rw [htasks] at hkw
  change calls.map Selection.started = fcfsSchedule nWorkers jobs at hkw
  refine ⟨completed, hran.completes, ?_, ?_, ?_⟩
  · rw [← hkw, List.map_map]
    exact hran.finished
  · rw [← hkw, htasks]
  · rw [← hkw]
    exact hschedule.inOrder

theorem fcfs_eq_kieferWolfowitz_crossing :
    ∃ completed, Simulator.Completes ⟨FCFSScheduler, 2, by decide⟩ () crossingJobs completed ∧
      completed.Perm ((fcfsSchedule 2 crossingJobs).map fun s => s.1.finished s.2) := by
  obtain ⟨completed, hcompletes, hperm, -⟩ :=
    fcfs_eq_kieferWolfowitz 2 (by decide) crossingJobs (by decide) (by decide)
  exact ⟨completed, hcompletes, hperm⟩

example : (fcfsSchedule 2 crossingJobs).map (fun s => (s.1.jobId, s.2)) =
    [("a", 0), ("b", 0), ("c", 3)] := by decide +kernel

end Chronoq.Bench
