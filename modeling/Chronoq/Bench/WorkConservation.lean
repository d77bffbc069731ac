import Chronoq.Bench.Selections

/-! # No worker idles while a job waits

When the clock moves nothing is left to be done at once, so the jobs that wait are those whose requests
are in the queue of the resource, and then every slot is taken by a job that runs on. The calls of
`select` therefore are a `Schedule` of the jobs, in every state of a run.

* `Laws.full_before_advance`: the workers when the clock moves.
* `ReachedLaws`: the laws of the states of a run together; `ReachedLaws.schedule`.
* `Simulator.Ran`: a run ends, and what it hands back is a schedule of the given jobs; `Simulator.Serves`:
  each of them is done, once. -/

namespace Chronoq.Bench
open Foundations

set_option autoImplicit false

open SimEvent

namespace Simulation
variable {σ : Type} {scheduler : BaseScheduler σ} {s t : Simulation σ} {n : ℕ} {order jobs : List Job}

/-- The jobs chosen so far, with their start times. -/
def schedule (s : Simulation σ) : List (Job × ℚ) := s.selections.map Selection.started

theorem TraceLaws.countP_schedule (h : TraceLaws scheduler order s) (time : ℚ) :
    s.schedule.countP (Foundations.RunsAt Job.trueMs time) =
      (s.running ++ s.completed).countP (Job.RunsAt time) := by
  have hperm := h.jobs.countP_eq (Job.RunsAt time)
  rw [List.countP_append, List.countP_map, List.countP_map] at hperm
  rw [schedule, List.countP_map, List.countP_append, Nat.add_comm]
  exact hperm.symm

/-! ## When the clock moves -/

section Advance
variable {e : Scheduled ℚ SimEvent} {b : Agenda ℚ SimEvent}

theorem time_ne_now (hnext : s.agenda.next = some (e, b)) (hlt : s.now < b.now)
    {e' : Scheduled ℚ SimEvent} (he' : e' ∈ s.agenda.entries) : b.now ≤ e'.time ∧ e'.time ≠ s.now := by
  have hle : b.now ≤ e'.time := by
    rw [(Agenda.next_eq_some hnext).2.1]
    rcases List.mem_cons.mp ((Agenda.next_perm hnext).subset he') with rfl | hrest
    · exact le_rfl
    · exact Agenda.time_le_of_key_le (Agenda.next_lt hnext hrest).le
  exact ⟨hle, (hlt.trans_le hle).ne'⟩

/-- Whoever waits when the clock moves waits for a slot, and all of them are taken by running jobs. -/
theorem Laws.full_before_advance (h : Laws n jobs s) (hagenda : AgendaTimely s)
    (hnext : s.agenda.next = some (e, b)) (hlt : s.now < b.now) (hwaiting : s.waiting ≠ []) :
    n ≤ s.running.length := by
  have hclaims : s.agenda.total claims = 0 := by
    refine Agenda.total_eq_zero_of_forall fun e' he' => ?_
    have htimely := hagenda e' he'
    have hne := (time_ne_now hnext hlt he').2
    cases hevent : e'.event <;> rw [hevent] at htimely <;> first | rfl | exact absurd htimely hne
  have htries : s.agenda.total tries = 0 := by
    refine Agenda.total_eq_zero_of_forall fun e' he' => ?_
    have htimely := hagenda e' he'
    have hne := (time_ne_now hnext hlt he').2
    cases hevent : e'.event <;> rw [hevent] at htimely <;> first | rfl | exact absurd htimely hne
  have hholders : (s.agenda.total fun event => Multiset.card (holder event)) =
      s.agenda.total fun event => Multiset.card (serving event) := by
    refine Agenda.total_congr fun e' he' => ?_
    have htimely := hagenda e' he'
    have hne := (time_ne_now hnext hlt he').2
    cases hevent : e'.event <;> rw [hevent] at htimely <;> first | rfl | exact absurd htimely hne
  have husers : s.workers.users.length = s.running.length := by
    calc s.workers.users.length = Multiset.card (s.agenda.total holder) := by
          rw [← h.slots.users, Multiset.coe_card]
      _ = s.agenda.total fun event => Multiset.card (holder event) :=
          Agenda.map_total Multiset.cardHom holder
      _ = s.agenda.total fun event => Multiset.card (serving event) := hholders
      _ = Multiset.card (s.agenda.total serving) :=
          (Agenda.map_total Multiset.cardHom serving).symm
      _ = s.running.length := by rw [← h.jobs.served, Multiset.coe_card]
  have hqueue : s.workers.putQueue ≠ [] := by
    have hclaimed := h.slots.claimed
    have hpos := List.length_pos_iff.mpr hwaiting
    rw [hclaims] at hclaimed
    exact List.length_pos_iff.mp (by omega)
  have hcovered := h.slots.covered hqueue
  rw [htries, h.slots.capacity, husers] at hcovered
  exact hcovered

/-- A running job has been started and is not done before the clock moves. -/
theorem runsAt_of_running (hjobs : JobLaws jobs s) (htimes : TimeLaws s)
    (htrace : TraceLaws scheduler order s) (hnext : s.agenda.next = some (e, b))
    (hlt : s.now < b.now) {job : Job} (hjob : job ∈ s.running) {time : ℚ} (hle : s.now ≤ time)
    (hless : time < b.now) : Job.RunsAt time job := by
  constructor
  · have hmem : job.finished job.startMs ∈ s.selections.map Selection.finished :=
      htrace.jobs.subset (List.mem_append_right _ (List.mem_map_of_mem hjob))
    obtain ⟨c, hc, heq⟩ := List.mem_map.mp hmem
    have hstart : c.time = job.startMs := congrArg Job.startMs heq
    exact hstart ▸ (htrace.calls.past c hc).2.trans hle
  · have hserving : job ∈ s.agenda.total serving := by
      rw [← hjobs.served]
      exact hjob
    obtain ⟨e', he', hmem⟩ := Agenda.mem_total.mp hserving
    have hontime := htimes.agenda e' he'
    have hlater := (time_ne_now hnext hlt he').1
    cases hevent : e'.event with
    | jobTimeout worker chosen =>
      rw [hevent] at hontime hmem
      obtain rfl := Multiset.mem_singleton.mp hmem
      have htime : e'.time = job.startMs + job.trueMs := hontime
      exact hless.trans_le (htime ▸ hlater)
    | arrivalsInit arrivals => simp [hevent, serving] at hmem
    | arrivalTimeout job' arrivals => simp [hevent, serving] at hmem
    | workerInit worker => simp [hevent, serving] at hmem
    | request worker => simp [hevent, serving] at hmem
    | release worker => simp [hevent, serving] at hmem
    | processEnd => simp [hevent, serving] at hmem

end Advance

/-! ## Work conservation -/

/-- At every time in the past at which a job had arrived and was not started, `n` jobs were running. -/
def Conserving (n : ℕ) (s : Simulation σ) : Prop :=
  ∀ time, 0 ≤ time → time < s.now →
    ((∃ job ∈ s.waiting, job.arrivesAt ≤ time) ∨
      ∃ c ∈ s.selections, c.chosen.arrivesAt ≤ time ∧ time < c.time) →
    n ≤ s.schedule.countP (Foundations.RunsAt Job.trueMs time)

theorem Conserving.taken {e : Scheduled ℚ SimEvent} {b : Agenda ℚ SimEvent} (h : Conserving n s)
    (hlaws : Laws n jobs s) (htrace : TraceLaws scheduler order s)
    (hnext : s.agenda.next = some (e, b)) : Conserving n { s with agenda := b } := by
  intro time hzero hless hleft
  by_cases hpast : time < s.now
  · exact h time hzero hpast hleft
  · have hle := not_lt.mp hpast
    have hlt : s.now < b.now := hle.trans_lt hless
    rcases hleft with ⟨job, hjob, -⟩ | ⟨c, hc, -, hstart⟩
    · have hfull := hlaws.full_before_advance htrace.agenda hnext hlt (List.ne_nil_of_mem hjob)
      have hall : s.running.countP (Job.RunsAt time) = s.running.length := by
        refine List.countP_eq_length.mpr fun job hjob => decide_eq_true ?_
        exact runsAt_of_running hlaws.jobs hlaws.times htrace hnext hlt hjob hle hless
      have hcount := htrace.countP_schedule time
      rw [List.countP_append, hall] at hcount
      show n ≤ s.schedule.countP _
      omega
    · exact absurd (hstart.trans_le ((htrace.calls.past c hc).2.trans hle)) (lt_irrefl time)

theorem Conserving.queued {event : SimEvent} (h : Queued scheduler s t event)
    (htimely : Timely s.now s.now event) (hnow : t.now = s.now) (hs : Conserving n s) :
    Conserving n t := by
  intro time hzero hless hleft
  rw [hnow] at hless
  cases h with
  | handedOver job arrivals hwaiting hselections hupcoming =>
    rw [schedule, hselections]
    rw [hwaiting, hselections] at hleft
    refine hs time hzero hless ?_
    rcases hleft with ⟨job', hjob', hle⟩ | hstarted
    · rcases List.mem_append.mp hjob' with hold | hnew
      · exact .inl ⟨job', hold, hle⟩
      · -- it arrives only now
        rw [List.mem_singleton.mp hnew, ← htimely.1] at hle
        exact absurd hle (not_le.mpr hless)
    · exact .inr hstarted
  | @selected worker chosen state hselect hmem hwaiting hselections hupcoming =>
    rw [schedule, hselections, List.map_append, List.countP_append]
    rw [hwaiting, hselections] at hleft
    refine Nat.le_add_right_of_le (hs time hzero hless ?_)
    rcases hleft with ⟨job, hjob, hle⟩ | ⟨c, hc, hle, hlt⟩
    · exact .inl ⟨job, List.mem_of_mem_erase hjob, hle⟩
    · rcases List.mem_append.mp hc with hold | hnew
      · exact .inr ⟨c, hold, hle, hlt⟩
      · rw [List.mem_singleton.mp hnew] at hle
        exact .inl ⟨chosen, hmem, hle⟩
  | unchanged hwaiting hselections hupcoming =>
    rw [schedule, hselections]
    rw [hwaiting, hselections] at hleft
    exact hs time hzero hless hleft

/-! ## The laws of a run -/

structure ReachedLaws (scheduler : BaseScheduler σ) (n : ℕ) (jobs : List Job) (s : Simulation σ) :
    Prop where
  laws : Laws n jobs s
  trace : TraceLaws scheduler (Simulator.arrivalOrder jobs) s
  conserving : Conserving n s

theorem ReachedLaws.step (h : ReachedLaws scheduler n jobs s)
    (hstep : s.step scheduler = some (.ok t)) : ReachedLaws scheduler n jobs t := by
  refine ⟨h.laws.step hstep, h.trace.step h.laws.times hstep, ?_⟩
  obtain ⟨e, b, hnext, hhandled⟩ := step_handled hstep
  have htimely := (h.trace.agenda.taken hnext).1
  exact (h.conserving.taken h.laws h.trace hnext).queued (queued_of_handled hhandled) htimely
    (handled_now hhandled)

theorem initial_reachedLaws (sim : Simulator σ) (schedulerState : σ) (jobs : List Job) :
    ReachedLaws sim.scheduler sim.nWorkers jobs (sim.initial schedulerState jobs) where
  laws := sim.initial_laws schedulerState jobs
  trace := initial_traceLaws sim schedulerState jobs
  conserving := fun _ hzero hless _ => absurd hless (not_lt.mpr hzero)

theorem ReachedLaws.chosen_mem (h : ReachedLaws scheduler n jobs s) {c : Selection}
    (hc : c ∈ s.selections) : c.chosen ∈ jobs := by
  obtain ⟨seen, future, horder, -, hperm⟩ := h.trace.handedOver
  have hseen : c.chosen ∈ seen :=
    hperm.subset (List.mem_append_right _ (List.mem_map_of_mem hc))
  have hmem : c.chosen ∈ Simulator.arrivalOrder jobs := horder ▸ List.mem_append_left _ hseen
  exact (Simulator.arrivalOrder_perm jobs).subset hmem

/-- In every state of a run the calls of `select` so far are a schedule. -/
theorem ReachedLaws.schedule (h : ReachedLaws scheduler n jobs s)
    (htrue : ∀ job ∈ jobs, 0 < job.trueMs) :
    Schedule Job.arrivesAt Job.trueMs n s.schedule where
  inOrder := List.pairwise_map.mpr h.trace.calls.inOrder
  positive := List.forall_mem_map.mpr fun _ hc => htrue _ (h.chosen_mem hc)
  arrived := List.forall_mem_map.mpr fun c hc => (h.trace.calls.past c hc).1
  parallel := fun time => (h.trace.countP_schedule time).trans_le (h.laws.history.parallel time)
  conserving := by
    refine List.forall_mem_map.mpr fun c hc time hle hlt => ?_
    have hpast := (h.trace.calls.past c hc).2
    exact h.conserving time ((le_max_left _ _).trans hle) (hlt.trans_le hpast)
      (.inr ⟨c, hc, hle, hlt⟩)

/-- When nothing is scheduled, every job has been handed over, chosen and completed. -/
theorem ReachedLaws.final (h : ReachedLaws scheduler n jobs s) (hn : 1 ≤ n)
    (hentries : s.agenda.entries = []) :
    s.completed.Perm (s.selections.map Selection.finished) ∧
      (s.selections.map Selection.chosen).Perm (Simulator.arrivalOrder jobs) := by
  obtain ⟨hcompleted, hrunning⟩ := h.laws.final hn hentries
  have hjobs := h.trace.jobs
  rw [hrunning, List.map_nil, List.append_nil] at hjobs
  obtain ⟨seen, future, horder, -, hperm⟩ := h.trace.handedOver
  have hlength : (s.selections.map Selection.chosen).length =
      (Simulator.arrivalOrder jobs).length := by
    have hcount := hcompleted.length_eq
    have hselected := hjobs.length_eq
    rw [List.length_map, List.length_map] at hcount
    rw [List.length_map] at hselected
    rw [List.length_map, Simulator.arrivalOrder, List.length_insertionSort]
    omega
  have hsplit := congrArg List.length horder
  have hseen := hperm.length_eq
  rw [List.length_append] at hsplit hseen
  have hwaiting : s.waiting = [] := List.length_eq_zero_iff.mp (by omega)
  have hfuture : future = [] := List.length_eq_zero_iff.mp (by omega)
  rw [hwaiting, List.nil_append] at hperm
  rw [hfuture, List.append_nil] at horder
  exact ⟨hjobs, horder ▸ hperm⟩

theorem exists_run_of_runFor {fuel : ℕ} (h : s.runFor scheduler fuel = some (.ok t)) :
    ∃ steps, Run (Steps scheduler) s steps t := by
  induction fuel generalizing s with
  | zero => cases h
  | succ fuel ih =>
    rw [runFor] at h
    cases hstep : s.step scheduler with
    | none =>
      rw [hstep] at h
      cases h
      exact ⟨[], .nil _⟩
    | some result =>
      rw [hstep] at h
      cases result with
      | error exc => cases h
      | ok s' =>
        obtain ⟨steps, hrun⟩ := ih h
        exact ⟨() :: steps, .cons hstep hrun⟩

end Simulation

/-! ## The whole run -/

namespace Simulator
open Simulation

variable {σ : Type}

/-- With enough fuel the run ends and hands back the jobs `completed`. -/
def Completes (sim : Simulator σ) (schedulerState : σ) (jobs completed : List Job) : Prop :=
  ∀ fuel > 6 * jobs.length + 2,
    sim.run schedulerState fuel jobs = some (.ok ⟨sim.scheduler.name, completed⟩)

/-- A run that ends: what it hands back are the jobs as the `calls` of `select` started them. -/
structure Ran (sim : Simulator σ) (schedulerState : σ) (jobs completed : List Job)
    (calls : List Selection) : Prop where
  completes : sim.Completes schedulerState jobs completed
  finished : completed.Perm (calls.map Selection.finished)
  served : (calls.map Selection.chosen).Perm (arrivalOrder jobs)
  schedule : Schedule Job.arrivesAt Job.trueMs sim.nWorkers (calls.map Selection.started)
  each : EachWithPast (fun before c =>
    Called sim.scheduler (arrivalOrder jobs) (before.map Selection.chosen) c) calls

theorem exists_ran_among (sim : Simulator σ) (schedulerState : σ) {jobs : List Job} {I : σ → Prop}
    (hselect : sim.scheduler.SelectsAmong I jobs) (hstate : I schedulerState)
    (htrue : ∀ job ∈ jobs, 0 < job.trueMs) :
    ∃ ended : Simulation σ,
      (∃ steps, Run (Steps sim.scheduler) (sim.initial schedulerState jobs) steps ended) ∧
      ended.agenda.entries = [] ∧ I ended.schedulerState ∧
      (∀ fuel > 6 * jobs.length + 2,
        (sim.initial schedulerState jobs).runFor sim.scheduler fuel = some (.ok ended)) ∧
      sim.Ran schedulerState jobs ended.completed ended.selections := by
  obtain ⟨ended, hentries, -, hended, hrun⟩ := (sim.initial_laws schedulerState jobs).exists_final hselect
    hstate fun job hjob => (htrue job hjob).le
  rw [initial_workLeft] at hrun
  obtain ⟨steps, hsteps⟩ := exists_run_of_runFor (hrun _ (Nat.lt_succ_self _))
  have hlaws : ReachedLaws sim.scheduler sim.nWorkers jobs ended :=
    hsteps.preserves (fun _ _ _ hstep h => h.step hstep) (initial_reachedLaws sim schedulerState jobs)
  obtain ⟨hfinished, hserved⟩ := hlaws.final sim.positive hentries
  refine ⟨ended, ⟨steps, hsteps⟩, hentries, hended, hrun, fun fuel hfuel => ?_, hfinished, hserved,
    hlaws.schedule htrue, hlaws.trace.calls.each⟩
  rw [run, hrun fuel hfuel]
  rfl

theorem exists_ran (sim : Simulator σ) (schedulerState : σ) {jobs : List Job}
    (hselect : sim.scheduler.Selects) (htrue : ∀ job ∈ jobs, 0 < job.trueMs) :
    ∃ ended : Simulation σ,
      (∃ steps, Run (Steps sim.scheduler) (sim.initial schedulerState jobs) steps ended) ∧
      ended.agenda.entries = [] ∧
      sim.Ran schedulerState jobs ended.completed ended.selections := by
  obtain ⟨ended, hsteps, hentries, -, -, hran⟩ :=
    sim.exists_ran_among schedulerState (hselect.among jobs) trivial htrue
  exact ⟨ended, hsteps, hentries, hran⟩

/-- The run ends, and what it hands back are the given jobs, each once and each done. -/
structure Serves (sim : Simulator σ) (schedulerState : σ) (jobs completed : List Job) : Prop where
  completes : sim.Completes schedulerState jobs completed
  given : (completed.map Job.asGiven).Perm (jobs.map Job.asGiven)
  distinct : (completed.map Job.jobId).Nodup
  done : ∀ job ∈ completed, job.arrivalMs ≤ job.startMs ∧ job.endMs = job.startMs + job.trueMs

theorem Ran.serves {sim : Simulator σ} {schedulerState : σ} {jobs completed : List Job}
    {calls : List Selection} (h : sim.Ran schedulerState jobs completed calls)
    (hids : (jobs.map Job.jobId).Nodup) : sim.Serves schedulerState jobs completed := by
  have hgiven : (completed.map Job.asGiven).Perm (jobs.map Job.asGiven) := by
    have hchosen := (h.served.trans (arrivalOrder_perm jobs)).map Job.asGiven
    rw [List.map_map] at hchosen
    refine (h.finished.map Job.asGiven).trans ?_
    rw [List.map_map]
    exact hchosen
  refine ⟨h.completes, hgiven, ?_, fun job hjob => ?_⟩
  · have hsame := hgiven.map Job.jobId
    rw [List.map_map, List.map_map] at hsame
    exact hsame.nodup_iff.mpr hids
  · obtain ⟨c, hc, rfl⟩ := List.mem_map.mp (h.finished.subset hjob)
    exact ⟨(le_max_right _ _).trans (h.schedule.arrived _ (List.mem_map_of_mem hc)), rfl⟩

end Simulator

/-! ## Busy times -/

/-- The job occupies a worker at `time`. -/
def Job.OccupiesAt (time : ℚ) (job : Job) : Prop := job.startMs ≤ time ∧ time < job.endMs

instance (time : ℚ) : DecidablePred (Job.OccupiesAt time) :=
  fun _ => inferInstanceAs (Decidable (_ ∧ _))

/-- Whenever a job has arrived and is not started, `n` jobs are running. -/
def WorkConserving (n : ℕ) (completed : List Job) : Prop :=
  ∀ job ∈ completed, ∀ time, job.arrivalMs ≤ time → time < job.startMs →
    completed.countP (Job.OccupiesAt time) = n

def BusyAt (completed : List Job) (time : ℚ) : Prop := ∃ job ∈ completed, job.OccupiesAt time

def busyTime (completed : List Job) : ℚ := (completed.map fun job => job.endMs - job.startMs).sum

def makespan (completed : List Job) : WithBot ℚ := (completed.map Job.endMs).maximum

section Ran
variable {σ : Type} {sim : Simulator σ} {schedulerState : σ} {jobs completed : List Job}
  {calls : List Selection}

namespace Simulator.Ran

theorem countP_occupiesAt (h : sim.Ran schedulerState jobs completed calls) (time : ℚ) :
    completed.countP (Job.OccupiesAt time) =
      (calls.map Selection.started).countP (RunsAt Job.trueMs time) := by
  rw [h.finished.countP_eq, List.countP_map, List.countP_map]
  rfl

theorem workConserving (h : sim.Ran schedulerState jobs completed calls)
    (harrival : ∀ job ∈ jobs, 0 ≤ job.arrivalMs) : WorkConserving sim.nWorkers completed := by
  intro job hjob time hle hlt
  obtain ⟨c, hc, rfl⟩ := List.mem_map.mp (h.finished.subset hjob)
  have hstarted : c.started ∈ calls.map Selection.started := List.mem_map_of_mem hc
  have hmem : c.chosen ∈ jobs :=
    (h.served.trans (Simulator.arrivalOrder_perm jobs)).subset (List.mem_map_of_mem hc)
  have harrives : c.chosen.arrivesAt ≤ time :=
    (Job.arrivesAt_of_nonneg (harrival _ hmem)).trans_le hle
  rw [h.countP_occupiesAt]
  exact le_antisymm (h.schedule.parallel time)
    (h.schedule.conserving _ hstarted time harrives hlt)

theorem busyAt_iff (h : sim.Ran schedulerState jobs completed calls) (time : ℚ) :
    BusyAt completed time ↔ Busy Job.trueMs (calls.map Selection.started) time := by
  have hcount := h.countP_occupiesAt time
  have hleft : BusyAt completed time ↔ 0 < completed.countP (Job.OccupiesAt time) := by
    simp [BusyAt, List.countP_pos_iff]
  have hright : Busy Job.trueMs (calls.map Selection.started) time ↔
      0 < (calls.map Selection.started).countP (RunsAt Job.trueMs time) := by
    simp only [Busy, List.countP_pos_iff, decide_eq_true_eq]
  rw [hleft, hright, hcount]

theorem busyTime_eq (h : sim.Ran schedulerState jobs completed calls) :
    busyTime completed = (jobs.map Job.trueMs).sum := by
  have hbusy : busyTime completed = ((calls.map Selection.chosen).map Job.trueMs).sum := by
    rw [busyTime, (h.finished.map _).sum_eq, List.map_map, List.map_map]
    refine congrArg List.sum (List.map_congr_left fun c _ => ?_)
    exact add_sub_cancel_left c.time c.chosen.trueMs
  rw [hbusy, ((h.served.trans (Simulator.arrivalOrder_perm jobs)).map _).sum_eq]

theorem startMs_lt_endMs (h : sim.Ran schedulerState jobs completed calls) {job : Job}
    (hjob : job ∈ completed) : job.startMs < job.endMs := by
  obtain ⟨c, hc, rfl⟩ := List.mem_map.mp (h.finished.subset hjob)
  have hpos := h.schedule.positive c.started (List.mem_map_of_mem hc)
  exact lt_add_of_pos_right c.time hpos

end Simulator.Ran

/-- A time before `b`, but after `a` and every element of the list. -/
theorem exists_lt_of_forall_lt {a b : ℚ} {l : List ℚ} (ha : a < b) (hl : ∀ x ∈ l, x < b) :
    ∃ t, a ≤ t ∧ t < b ∧ ∀ x ∈ l, x ≤ t := by
  induction l with
  | nil => exact ⟨a, le_rfl, ha, List.forall_mem_nil _⟩
  | cons x l ih =>
    obtain ⟨hx, hl⟩ := List.forall_mem_cons.mp hl
    obtain ⟨t, hat, htb, hall⟩ := ih hl
    exact ⟨max x t, hat.trans (le_max_right _ _), max_lt hx htb,
      List.forall_mem_cons.mpr ⟨le_max_left _ _, fun y hy => (hall y hy).trans (le_max_right _ _)⟩⟩

theorem makespan_le {completed completed' : List Job}
    (hless : ∀ job ∈ completed, job.startMs < job.endMs)
    (hbusy : ∀ time, BusyAt completed time → BusyAt completed' time) :
    makespan completed ≤ makespan completed' := by
  refine List.maximum_le_of_forall_le fun x hx => ?_
  obtain ⟨job, hjob, rfl⟩ := List.mem_map.mp hx
  by_contra hgt
  -- at a late enough time only `completed` would be busy
  have hends : ∀ x ∈ completed'.map Job.endMs, x < job.endMs := fun x hx =>
    WithBot.coe_lt_coe.mp ((List.le_maximum_of_mem' hx).trans_lt (not_le.mp hgt))
  obtain ⟨time, hstart, hend, hover⟩ := exists_lt_of_forall_lt (hless job hjob) hends
  obtain ⟨job', hjob', hruns⟩ := hbusy time ⟨job, hjob, hstart, hend⟩
  exact absurd hruns.2 (not_lt.mpr (hover _ (List.mem_map_of_mem hjob')))

end Ran

/-- For any two schedulers and numbers of workers both runs serve the given jobs and leave no worker idle
while a job waits; if there is one worker, it is busy at the same times in both. -/
theorem busy_times_independent_of_policy {σ σ' : Type} (sim : Simulator σ) (sim' : Simulator σ')
    (schedulerState : σ) (schedulerState' : σ') (jobs : List Job)
    (hselect : sim.scheduler.Selects) (hselect' : sim'.scheduler.Selects)
    (hids : (jobs.map Job.jobId).Nodup) (harrival : ∀ job ∈ jobs, 0 ≤ job.arrivalMs)
    (htrue : ∀ job ∈ jobs, 0 < job.trueMs) :
    ∃ completed completed',
      sim.Serves schedulerState jobs completed ∧
      sim'.Serves schedulerState' jobs completed' ∧
      WorkConserving sim.nWorkers completed ∧ WorkConserving sim'.nWorkers completed' ∧
      (sim.nWorkers = 1 → sim'.nWorkers = 1 →
        (∀ time, BusyAt completed time ↔ BusyAt completed' time) ∧
          (∀ time, completed.countP (Job.OccupiesAt time) ≤ 1) ∧
          busyTime completed = busyTime completed' ∧ makespan completed = makespan completed') := by
  obtain ⟨ended, -, -, h⟩ := sim.exists_ran schedulerState hselect htrue
  obtain ⟨ended', -, -, h'⟩ := sim'.exists_ran schedulerState' hselect' htrue
  refine ⟨_, _, h.serves hids, h'.serves hids, h.workConserving harrival, h'.workConserving harrival,
    fun hone hone' => ?_⟩
  have hschedule := h.schedule
  have hschedule' := h'.schedule
  rw [hone] at hschedule
  rw [hone'] at hschedule'
  have htasks : ((ended.selections.map Selection.started).map Prod.fst).Perm
      ((ended'.selections.map Selection.started).map Prod.fst) := by
    rw [List.map_map, List.map_map]
    exact h.served.trans h'.served.symm
  have hbusy : ∀ time, BusyAt ended.completed time ↔ BusyAt ended'.completed time := fun time => by
    rw [h.busyAt_iff, h'.busyAt_iff]
    exact hschedule.busy_congr hschedule' htasks time
  refine ⟨hbusy, fun time => ?_, h.busyTime_eq.trans h'.busyTime_eq.symm, le_antisymm ?_ ?_⟩
  · rw [h.countP_occupiesAt]
    exact hschedule.parallel time
  · exact makespan_le (fun _ => h.startMs_lt_endMs) fun time => (hbusy time).mp
  · exact makespan_le (fun _ => h'.startMs_lt_endMs) fun time => (hbusy time).mpr

/-- Two jobs that arrive at one time and a third while the first of them runs. -/
def crossingJobs : List Job :=
  [{ jobId := "a", taskType := "resize", payloadSize := 1, trueMs := 5, arrivalMs := 0 },
    { jobId := "b", taskType := "resize", payloadSize := 1, trueMs := 2, arrivalMs := 0 },
    { jobId := "c", taskType := "scale", payloadSize := 1, trueMs := 1, arrivalMs := 3 }]

theorem busy_times_independent_of_policy_crossing :
    ∃ completed completed',
      Simulator.Serves ⟨FCFSScheduler, 1, le_rfl⟩ () crossingJobs completed ∧
      Simulator.Serves ⟨SJFOracleScheduler, 1, le_rfl⟩ () crossingJobs completed' ∧
      (∀ time, BusyAt completed time ↔ BusyAt completed' time) := by
  obtain ⟨completed, completed', h, h', -, -, hone⟩ :=
    busy_times_independent_of_policy ⟨FCFSScheduler, 1, le_rfl⟩ ⟨SJFOracleScheduler, 1, le_rfl⟩ () ()
      crossingJobs fcfs_selects sjf_selects (by decide) (by decide) (by decide)
  exact ⟨completed, completed', h, h', (hone rfl rfl).1⟩

end Chronoq.Bench
