import Chronoq.Bench.Baselines

/-! # The simulator conserves jobs and respects its machine model

The worker process that gets a slot is not tied to the job it runs, so nothing says for a single process
that there is a job for it. What holds is about sums over the agenda:

* `SlotLaws`: every user of the resource is a worker process with a granted request or a running job;
  the worker processes that have not chosen yet are as many as the waiting jobs; and every release that
  is still to be processed covers a request that could have been granted.
* `JobLaws`: the jobs still to arrive, waiting, running and completed are together the given ones, and
  the running ones are those of the job timeouts.
* `TimeLaws`: a job does not start before it arrives and ends when its time is over.
* `HistoryLaws`: at no instant do more jobs run than there are slots, and the calls of `select`.

`work` is what an event has still to bring about; every step does one piece of it, so the number of
steps is known (`exists_final`). -/

namespace Chronoq.Bench
open Foundations

set_option autoImplicit false

/-- The job without what a run fills in. -/
def Job.asGiven (job : Job) : Job := { job with startMs := 0, endMs := 0, remainingMs := job.trueMs }

/-- In a state with the property, `select` returns an element of any list that some of the given jobs may
make up, and every state that follows has the property. -/
structure BaseScheduler.SelectsAmong {σ : Type} (scheduler : BaseScheduler σ) (I : σ → Prop)
    (jobs : List Job) : Prop where
  selects : ∀ {state waiting}, I state → waiting ≠ [] →
    (waiting.map Job.asGiven).Subperm (jobs.map Job.asGiven) →
    ∃ chosen ∈ waiting, ∃ state', scheduler.select state waiting = .ok (chosen, state') ∧ I state'
  onArrival : ∀ {now state waiting last}, I state → I (scheduler.onArrival now state waiting last).2

theorem BaseScheduler.Selects.among {σ : Type} {scheduler : BaseScheduler σ} (h : scheduler.Selects)
    (jobs : List Job) : scheduler.SelectsAmong (fun _ => True) jobs where
  selects {state waiting} _ hne _ := by
    obtain ⟨chosen, hmem, state', hselect⟩ := h state waiting hne
    exact ⟨chosen, hmem, state', hselect, trivial⟩
  onArrival _ := trivial

def Job.RunsAt (time : ℚ) (job : Job) : Prop :=
  job.startMs ≤ time ∧ time < job.startMs + job.trueMs

instance (time : ℚ) : DecidablePred (Job.RunsAt time) := fun _ => inferInstanceAs (Decidable (_ ∧ _))

namespace SimEvent

/-- The jobs that have not arrived. -/
def arriving : SimEvent → Multiset Job
  | .arrivalsInit arrivals => arrivals
  | .arrivalTimeout job arrivals => job ::ₘ (arrivals : Multiset Job)
  | _ => 0

/-- The job that runs until the event. -/
def serving : SimEvent → Multiset Job
  | .jobTimeout _ chosen => {chosen}
  | _ => 0

/-- The worker process that holds a slot until the event, or beyond it. -/
def holder : SimEvent → Multiset ℕ
  | .request worker => {worker}
  | .jobTimeout worker _ => {worker}
  | _ => 0

/-- Worker processes that have not chosen a job, apart from those in the queue of the resource. -/
def claims : SimEvent → ℕ
  | .workerInit _ => 1
  | .request _ => 1
  | _ => 0

/-- Tries to grant a request. -/
def tries : SimEvent → ℕ
  | .release _ => 1
  | _ => 0

/-- The number of events that are processed because of this one, itself included. -/
def work : SimEvent → ℕ
  | .arrivalsInit arrivals => 6 * arrivals.length + 2
  | .arrivalTimeout _ arrivals => 6 * arrivals.length + 7
  | .workerInit _ => 5
  | .request _ => 4
  | .jobTimeout _ _ => 3
  | .release _ => 1
  | .processEnd => 1

end SimEvent

open SimEvent

namespace Simulation
variable {σ : Type}

/-! ## Slots -/

structure SlotLaws (n : ℕ) (s : Simulation σ) : Prop where
  capacity : s.workers.capacity = n
  users : (s.workers.users : Multiset ℕ) = s.agenda.total holder
  claimed : s.agenda.total claims + s.workers.putQueue.length = s.waiting.length
  covered : s.workers.Covered (s.agenda.total tries)

/-- What is left to do, the requests in the queue of the resource included. -/
def workLeft (s : Simulation σ) : ℕ := s.agenda.total work + 4 * s.workers.putQueue.length

/-! ### What the next events of the agenda hold -/

@[simp] theorem arriving_arrivalEvent (arrivals : List Job) :
    arriving (arrivalEvent arrivals) = arrivals := by cases arrivals <;> rfl

@[simp] theorem serving_arrivalEvent (arrivals : List Job) : serving (arrivalEvent arrivals) = 0 := by
  cases arrivals <;> rfl

@[simp] theorem holder_arrivalEvent (arrivals : List Job) : holder (arrivalEvent arrivals) = 0 := by
  cases arrivals <;> rfl

@[simp] theorem claims_arrivalEvent (arrivals : List Job) : claims (arrivalEvent arrivals) = 0 := by
  cases arrivals <;> rfl

@[simp] theorem tries_arrivalEvent (arrivals : List Job) : tries (arrivalEvent arrivals) = 0 := by
  cases arrivals <;> rfl

theorem work_arrivalEvent (arrivals : List Job) :
    work (arrivalEvent arrivals) = 6 * arrivals.length + 1 := by
  cases arrivals with
  | nil => rfl
  | cons job arrivals =>
    show 6 * arrivals.length + 7 = 6 * (arrivals.length + 1) + 1
    omega

section Grant
variable (s : Simulation σ) (tried : Resource ℕ × Option ℕ)

theorem total_holder_grant :
    (s.grant tried).agenda.total holder = (tried.2.toList : Multiset ℕ) + s.agenda.total holder := by
  obtain ⟨r, _ | worker⟩ := tried
  · exact (zero_add _).symm
  · exact total_scheduleNow holder _ _ _

theorem total_claims_grant :
    (s.grant tried).agenda.total claims = tried.2.toList.length + s.agenda.total claims := by
  obtain ⟨r, _ | worker⟩ := tried
  · exact (zero_add _).symm
  · exact total_scheduleNow claims _ _ _

theorem total_work_grant :
    (s.grant tried).agenda.total work = 4 * tried.2.toList.length + s.agenda.total work := by
  obtain ⟨r, _ | worker⟩ := tried
  · exact (zero_add _).symm
  · exact total_scheduleNow work _ _ _

/-- A granted request is not a try, and holds no job. -/
theorem total_grant_eq {M : Type*} [AddCommMonoid M] (f : SimEvent → M)
    (hf : ∀ worker, f (.request worker) = 0) :
    (s.grant tried).agenda.total f = s.agenda.total f := by
  obtain ⟨r, _ | worker⟩ := tried
  · rfl
  · exact (total_scheduleNow f _ _ _).trans (by rw [hf, zero_add])

end Grant

section Step
variable {scheduler : BaseScheduler σ} {n : ℕ} {s t : Simulation σ}

theorem SlotLaws.arrivalLoop (h : SlotLaws n s) (arrivals : List Job) :
    SlotLaws n (s.arrivalLoop arrivals) := by
  refine ⟨?_, ?_, ?_, ?_⟩
  · rw [arrivalLoop_workers]
    exact h.capacity
  · rw [arrivalLoop_workers, total_arrivalLoop, holder_arrivalEvent, zero_add]
    exact h.users
  · rw [arrivalLoop_workers, arrivalLoop_waiting, total_arrivalLoop, claims_arrivalEvent, zero_add]
    exact h.claimed
  · rw [arrivalLoop_workers, total_arrivalLoop, tries_arrivalEvent, zero_add]
    exact h.covered

/-- A job that arrives waits, and the process for it has not chosen. -/
theorem SlotLaws.arrive (h : SlotLaws n s) (job : Job) : SlotLaws n (s.arrive scheduler job) := by
  refine ⟨h.capacity, ?_, ?_, ?_⟩
  · rw [total_arrive]
    exact h.users.trans (zero_add _).symm
  · rw [total_arrive]
    have hclaimed := h.claimed
    show 1 + s.agenda.total claims + s.workers.putQueue.length = (s.waiting ++ [job]).length
    rw [List.length_append, List.length_singleton]
    omega
  · rw [total_arrive]
    show s.workers.Covered (0 + s.agenda.total tries)
    rw [zero_add]
    exact h.covered

/-- An event that stands for nothing may be left out of the sums. -/
theorem SlotLaws.of_nothing {event : SimEvent} (hholder : holder event = 0) (hclaims : claims event = 0)
    (htries : tries event = 0) (hcapacity : s.workers.capacity = n)
    (husers : (s.workers.users : Multiset ℕ) = holder event + s.agenda.total holder)
    (hclaimed : claims event + s.agenda.total claims + s.workers.putQueue.length = s.waiting.length)
    (hcovered : s.workers.Covered (tries event + s.agenda.total tries)) : SlotLaws n s := by
  rw [hholder, zero_add] at husers
  rw [hclaims, zero_add] at hclaimed
  rw [htries, zero_add] at hcovered
  exact ⟨hcapacity, husers, hclaimed, hcovered⟩

theorem SlotLaws.handled {event : SimEvent} (h : Handled scheduler s event t)
    (hcapacity : s.workers.capacity = n)
    (husers : (s.workers.users : Multiset ℕ) = holder event + s.agenda.total holder)
    (hclaimed : claims event + s.agenda.total claims + s.workers.putQueue.length = s.waiting.length)
    (hcovered : s.workers.Covered (tries event + s.agenda.total tries)) : SlotLaws n t := by
  cases h with
  | arrivals arrivals =>
    exact (SlotLaws.of_nothing rfl rfl rfl hcapacity husers hclaimed hcovered).arrivalLoop arrivals
  | arrived job arrivals =>
    have hslots := SlotLaws.of_nothing rfl rfl rfl hcapacity husers hclaimed hcovered
    exact (hslots.arrive job).arrivalLoop arrivals
  | asked worker =>
    refine ⟨?_, ?_, ?_, ?_⟩
    · rw [grant_workers, Resource.request, Resource.triggerPut_capacity]
      exact hcapacity
    · rw [grant_workers, total_holder_grant, Resource.request, Resource.triggerPut_users,
        ← Multiset.coe_add]
      show (s.workers.users : Multiset ℕ) + _ = _
      rw [husers, add_comm]
      exact congrArg _ (zero_add _)
    · -- the request is in the queue or granted
      rw [grant_workers, grant_waiting, total_claims_grant, ← hclaimed]
      have hlength := s.workers.request_queue_length worker
      show _ = 1 + s.agenda.total claims + s.workers.putQueue.length
      omega
    · rw [grant_workers, total_grant_eq s _ tries fun _ => rfl]
      have hcovered' : s.workers.Covered (s.agenda.total tries) := by
        rw [← zero_add (s.agenda.total tries)]
        exact hcovered
      exact hcovered'.request worker
  | began worker hselect hmem hnonneg =>
    refine ⟨hcapacity, ?_, ?_, ?_⟩
    · rw [total_begin]
      exact husers
    · -- the process has chosen, and the chosen job no longer waits
      rw [total_begin]
      show 0 + s.agenda.total claims + s.workers.putQueue.length = (s.waiting.erase _).length
      rw [List.length_erase_of_mem hmem, ← hclaimed]
      show _ = 1 + s.agenda.total claims + s.workers.putQueue.length - 1
      omega
    · rw [total_begin]
      exact hcovered
  | completed worker hmem =>
    refine ⟨hcapacity, ?_, ?_, ?_⟩
    · rw [total_complete]
      show ((s.workers.users.erase worker : List ℕ) : Multiset ℕ) = 0 + (0 + s.agenda.total holder)
      rw [← Multiset.coe_erase, husers, zero_add, zero_add]
      exact Multiset.erase_cons_head _ _
    · rw [total_complete]
      show 0 + (0 + s.agenda.total claims) + s.workers.putQueue.length = s.waiting.length
      rw [zero_add]
      exact hclaimed
    · -- the slot is free before the next request is tried
      rw [total_complete]
      show (s.workers.release worker).Covered (0 + (1 + s.agenda.total tries))
      rw [zero_add, add_comm]
      refine Resource.Covered.release ?_ worker
      rw [← zero_add (s.agenda.total tries)]
      exact hcovered
  | released worker =>
    refine ⟨?_, ?_, ?_, ?_⟩
    · rw [grant_workers, Resource.triggerPut_capacity]
      exact hcapacity
    · rw [grant_workers, total_holder_grant, Resource.triggerPut_users, ← Multiset.coe_add, husers,
        add_comm]
      exact congrArg _ (zero_add _)
    · rw [grant_workers, grant_waiting, total_claims_grant, ← hclaimed]
      have hlength := s.workers.triggerPut_queue_length
      show _ = 0 + s.agenda.total claims + s.workers.putQueue.length
      omega
    · rw [grant_workers, total_grant_eq s _ tries fun _ => rfl]
      refine Resource.Covered.triggerPut ?_
      rw [add_comm]
      exact hcovered
  | ended => exact SlotLaws.of_nothing rfl rfl rfl hcapacity husers hclaimed hcovered

theorem SlotLaws.step (h : SlotLaws n s) (hstep : s.step scheduler = some (.ok t)) :
    SlotLaws n t := by
  obtain ⟨e, b, hnext, hhandled⟩ := step_handled hstep
  refine SlotLaws.handled hhandled h.capacity ?_ ?_ ?_
  · rw [← Agenda.total_next holder hnext]
    exact h.users
  · rw [← Agenda.total_next claims hnext]
    exact h.claimed
  · rw [← Agenda.total_next tries hnext]
    exact h.covered

/-! ## Every step does a piece of the work -/

theorem workLeft_handled {event : SimEvent} (h : Handled scheduler s event t) :
    workLeft t + 1 = work event + workLeft s := by
  cases h with
  | arrivals arrivals =>
    rw [workLeft, workLeft, arrivalLoop_workers, total_arrivalLoop, work_arrivalEvent]
    show _ = 6 * arrivals.length + 2 + _
    omega
  | arrived job arrivals =>
    rw [workLeft, workLeft, arrivalLoop_workers, total_arrivalLoop, work_arrivalEvent, total_arrive]
    show 6 * arrivals.length + 1 + (5 + s.agenda.total work) + 4 * s.workers.putQueue.length + 1 =
      6 * arrivals.length + 7 + _
    omega
  | asked worker =>
    rw [workLeft, workLeft, grant_workers, total_work_grant]
    have hlength := s.workers.request_queue_length worker
    show _ = 5 + _
    omega
  | began worker hselect hmem hnonneg =>
    rw [workLeft, workLeft, total_begin]
    show 3 + s.agenda.total work + 4 * s.workers.putQueue.length + 1 = 4 + _
    omega
  | completed worker hmem =>
    rw [workLeft, workLeft, total_complete]
    show 1 + (1 + s.agenda.total work) + 4 * s.workers.putQueue.length + 1 = 3 + _
    omega
  | released worker =>
    rw [workLeft, workLeft, grant_workers, total_work_grant]
    have hlength := s.workers.triggerPut_queue_length
    show _ = 1 + _
    omega
  | ended => exact Nat.add_comm _ _

theorem workLeft_step (hstep : s.step scheduler = some (.ok t)) : workLeft t + 1 = workLeft s := by
  obtain ⟨e, b, hnext, hhandled⟩ := step_handled hstep
  rw [workLeft_handled hhandled, workLeft, workLeft, Agenda.total_next work hnext, Nat.add_assoc]

/-! ## Jobs -/

/-- The jobs that have arrived. -/
def known (s : Simulation σ) : Multiset Job :=
  (s.waiting : Multiset Job) + (s.running : Multiset Job) + (s.completed : Multiset Job)

/-- `jobs` are the given ones. -/
structure JobLaws (jobs : List Job) (s : Simulation σ) : Prop where
  conserved : (s.agenda.total arriving + known s).map Job.asGiven =
    (jobs : Multiset Job).map Job.asGiven
  served : (s.running : Multiset Job) = s.agenda.total serving

theorem known_arrivalLoop (arrivals : List Job) : known (s.arrivalLoop arrivals) = known s := by
  rw [known, arrivalLoop_waiting, arrivalLoop_running, arrivalLoop_completed, known]

theorem known_grant (tried : Resource ℕ × Option ℕ) : known (s.grant tried) = known s := by
  rw [known, grant_waiting, grant_running, grant_completed, known]

theorem known_arrive (job : Job) : known (s.arrive scheduler job) = {job} + known s := by
  show ((s.waiting ++ [job] : List Job) : Multiset Job) + s.running + s.completed = _
  rw [← Multiset.coe_add, Multiset.coe_singleton, known]
  abel

/-- Taking a job out of a list, and putting it back as it was given. -/
theorem asGiven_erase {l : List Job} {job : Job} (hmem : job ∈ l) :
    ((l.erase job : List Job) : Multiset Job).map Job.asGiven + {job.asGiven} =
      (l : Multiset Job).map Job.asGiven := by
  have hperm : (l : Multiset Job) = {job} + (l.erase job : List Job) :=
    Multiset.coe_eq_coe.mpr (List.perm_cons_erase hmem)
  rw [hperm, Multiset.map_add, Multiset.map_singleton, add_comm]

theorem known_begin (worker : ℕ) {chosen : Job} (schedulerState : σ) (hmem : chosen ∈ s.waiting)
    (h : 0 ≤ chosen.trueMs) :
    (known (s.begin worker chosen schedulerState h)).map Job.asGiven =
      (known s).map Job.asGiven := by
  show (((s.waiting.erase chosen : List Job) : Multiset Job) +
    (s.running ++ [{ chosen with startMs := s.now }] : List Job) + s.completed).map _ = _
  rw [known, ← Multiset.coe_add, Multiset.coe_singleton]
  simp only [Multiset.map_add, Multiset.map_singleton, ← asGiven_erase hmem]
  show _ + (_ + {chosen.asGiven}) + _ = _
  abel

theorem known_complete (worker : ℕ) {chosen : Job} (hmem : chosen ∈ s.running) :
    (known (s.complete worker chosen)).map Job.asGiven = (known s).map Job.asGiven := by
  show ((s.waiting : Multiset Job) + (s.running.erase chosen : List Job) +
    (s.completed ++ [{ chosen with endMs := s.now, remainingMs := 0 }] : List Job)).map _ = _
  rw [known, ← Multiset.coe_add, Multiset.coe_singleton]
  simp only [Multiset.map_add, Multiset.map_singleton, ← asGiven_erase hmem]
  show _ + _ + (_ + {chosen.asGiven}) = _
  abel

theorem JobLaws.grant {jobs : List Job} (h : JobLaws jobs s) (tried : Resource ℕ × Option ℕ) :
    JobLaws jobs (s.grant tried) := by
  refine ⟨?_, ?_⟩
  · rw [known_grant, total_grant_eq s _ arriving fun _ => rfl]
    exact h.conserved
  · rw [grant_running, total_grant_eq s _ serving fun _ => rfl]
    exact h.served

/-- An event that holds no job may be left out of the sums. -/
theorem JobLaws.of_holding_none {jobs : List Job} {event : SimEvent} (harriving : arriving event = 0)
    (hserving : serving event = 0)
    (hconserved : (arriving event + s.agenda.total arriving + known s).map Job.asGiven =
      (jobs : Multiset Job).map Job.asGiven)
    (hserved : (s.running : Multiset Job) = serving event + s.agenda.total serving) :
    JobLaws jobs s := by
  rw [harriving, zero_add] at hconserved
  rw [hserving, zero_add] at hserved
  exact ⟨hconserved, hserved⟩

theorem JobLaws.handled {jobs : List Job} {event : SimEvent} (h : Handled scheduler s event t)
    (hconserved : (arriving event + s.agenda.total arriving + known s).map Job.asGiven =
      (jobs : Multiset Job).map Job.asGiven)
    (hserved : (s.running : Multiset Job) = serving event + s.agenda.total serving) :
    JobLaws jobs t := by
  cases h with
  | arrivals arrivals =>
    refine ⟨?_, ?_⟩
    · rw [total_arrivalLoop, arriving_arrivalEvent, known_arrivalLoop]
      exact hconserved
    · rw [total_arrivalLoop, serving_arrivalEvent, arrivalLoop_running]
      exact hserved
  | arrived job arrivals =>
    refine ⟨?_, ?_⟩
    · rw [← hconserved, total_arrivalLoop, arriving_arrivalEvent, known_arrivalLoop, total_arrive,
        known_arrive]
      show ((arrivals : Multiset Job) + (0 + s.agenda.total arriving) + ({job} + known s)).map _ =
        (({job} + (arrivals : Multiset Job)) + s.agenda.total arriving + known s).map _
      congr 1
      abel
    · rw [total_arrivalLoop, serving_arrivalEvent, arrivalLoop_running, zero_add, total_arrive]
      exact hserved
  | asked worker => exact (JobLaws.of_holding_none rfl rfl hconserved hserved).grant _
  | began worker hselect hmem hnonneg =>
    refine ⟨?_, ?_⟩
    · rw [Multiset.map_add, known_begin worker _ hmem hnonneg, total_begin, ← hconserved]
      exact (Multiset.map_add _ _ _).symm
    · rw [total_begin]
      show ((s.running ++ [_] : List Job) : Multiset Job) = {_} + s.agenda.total serving
      rw [← Multiset.coe_add, Multiset.coe_singleton, add_comm, hserved]
      exact congrArg _ (zero_add _)
  | completed worker hmem =>
    refine ⟨?_, ?_⟩
    · rw [Multiset.map_add, known_complete worker hmem, total_complete, ← hconserved]
      show (0 + (0 + s.agenda.total arriving)).map _ + _ = _
      rw [zero_add]
      exact (Multiset.map_add _ _ _).symm
    · rw [total_complete]
      show ((s.running.erase _ : List Job) : Multiset Job) = 0 + (0 + s.agenda.total serving)
      rw [← Multiset.coe_erase, hserved, zero_add, zero_add]
      exact Multiset.erase_cons_head _ _
  | released worker => exact (JobLaws.of_holding_none rfl rfl hconserved hserved).grant _
  | ended => exact JobLaws.of_holding_none rfl rfl hconserved hserved

theorem JobLaws.step {jobs : List Job} (h : JobLaws jobs s)
    (hstep : s.step scheduler = some (.ok t)) : JobLaws jobs t := by
  obtain ⟨e, b, hnext, hhandled⟩ := step_handled hstep
  refine JobLaws.handled hhandled ?_ ?_
  · rw [← Agenda.total_next arriving hnext]
    exact h.conserved
  · rw [← Agenda.total_next serving hnext]
    exact h.served

theorem JobLaws.given {jobs : List Job} (h : JobLaws jobs s) {job : Job} (hjob : job ∈ known s) :
    ∃ given ∈ jobs, given.asGiven = job.asGiven := by
  have hmem : job.asGiven ∈ (jobs : Multiset Job).map Job.asGiven := by
    rw [← h.conserved]
    exact Multiset.mem_map_of_mem _ (Multiset.mem_add.mpr (.inr hjob))
  exact Multiset.mem_map.mp hmem

theorem JobLaws.trueMs_nonneg {jobs : List Job} (h : JobLaws jobs s)
    (htrue : ∀ job ∈ jobs, 0 ≤ job.trueMs) {job : Job} (hjob : job ∈ known s) : 0 ≤ job.trueMs := by
  obtain ⟨given, hgiven, heq⟩ := h.given hjob
  have htrueMs : given.trueMs = job.trueMs := by
    show given.asGiven.trueMs = job.asGiven.trueMs
    rw [heq]
  exact htrueMs ▸ htrue given hgiven

/-- The jobs that wait are some of the given ones. -/
theorem JobLaws.waiting_subperm {jobs : List Job} (h : JobLaws jobs s) :
    (s.waiting.map Job.asGiven).Subperm (jobs.map Job.asGiven) := by
  have hle : (s.waiting : Multiset Job) ≤ s.agenda.total arriving + known s :=
    (Multiset.le_add_right _ _).trans ((Multiset.le_add_right _ _).trans (Multiset.le_add_left _ _))
  have hgiven := Multiset.map_le_map hle (f := Job.asGiven)
  rw [h.conserved, Multiset.map_coe, Multiset.map_coe, Multiset.coe_le] at hgiven
  exact hgiven

/-- No more jobs run than there are slots. -/
theorem running_le (hslots : SlotLaws n s) {jobs : List Job} (hjobs : JobLaws jobs s) :
    s.running.length ≤ n := by
  calc s.running.length = Multiset.card (s.agenda.total serving) := by
        rw [← hjobs.served, Multiset.coe_card]
    _ = s.agenda.total fun event => Multiset.card (serving event) :=
        Agenda.map_total Multiset.cardHom serving
    _ ≤ s.agenda.total fun event => Multiset.card (holder event) :=
        Agenda.total_mono fun event => by cases event <;> simp [serving, holder]
    _ = Multiset.card (s.agenda.total holder) := (Agenda.map_total Multiset.cardHom holder).symm
    _ = s.workers.users.length := by rw [← hslots.users, Multiset.coe_card]
    _ ≤ n := hslots.capacity ▸ s.workers.bounded

/-! ## Times -/

/-- A timeout is over when the job has arrived, or is done. -/
def OnTime (time : ℚ) : SimEvent → Prop
  | .arrivalTimeout job _ => job.arrivalMs ≤ time
  | .jobTimeout _ job => time = job.startMs + job.trueMs
  | _ => True

def AgendaOnTime (s : Simulation σ) : Prop := ∀ e ∈ s.agenda.entries, OnTime e.time e.event

structure TimeLaws (s : Simulation σ) : Prop where
  agenda : AgendaOnTime s
  waiting : ∀ job ∈ s.waiting, job.arrivalMs ≤ s.now
  running : ∀ job ∈ s.running, job.arrivalMs ≤ job.startMs
  completed : ∀ job ∈ s.completed,
    job.arrivalMs ≤ job.startMs ∧ job.endMs = job.startMs + job.trueMs ∧ job.endMs ≤ s.now

theorem AgendaOnTime.scheduleNow (h : AgendaOnTime s) (priority : ℕ) {event : SimEvent}
    (hevent : OnTime s.now event) : AgendaOnTime (s.scheduleNow priority event) :=
  List.forall_mem_cons.mpr ⟨hevent, h⟩

theorem AgendaOnTime.timeout (h : AgendaOnTime s) {delay : ℚ} (hdelay : 0 ≤ delay)
    {event : SimEvent} (hevent : OnTime (s.now + delay) event) :
    AgendaOnTime (s.timeout delay hdelay event) :=
  List.forall_mem_cons.mpr ⟨hevent, h⟩

theorem AgendaOnTime.arrivalLoop (h : AgendaOnTime s) (arrivals : List Job) :
    AgendaOnTime (s.arrivalLoop arrivals) := by
  cases arrivals with
  | nil => exact h.scheduleNow normal trivial
  | cons job arrivals =>
    refine h.timeout (le_max_left _ _) ?_
    show job.arrivalMs ≤ s.now + max 0 (job.arrivalMs - s.now)
    have hle := le_max_right 0 (job.arrivalMs - s.now)
    linarith

theorem AgendaOnTime.grant (h : AgendaOnTime s) (tried : Resource ℕ × Option ℕ) :
    AgendaOnTime (s.grant tried) := by
  obtain ⟨r, _ | worker⟩ := tried
  · exact h
  · exact AgendaOnTime.scheduleNow (s := { s with workers := r }) h normal trivial

theorem TimeLaws.arrivalLoop (h : TimeLaws s) (arrivals : List Job) :
    TimeLaws (s.arrivalLoop arrivals) := by
  refine ⟨h.agenda.arrivalLoop arrivals, ?_, ?_, ?_⟩
  · rw [arrivalLoop_waiting, arrivalLoop_now]
    exact h.waiting
  · rw [arrivalLoop_running]
    exact h.running
  · rw [arrivalLoop_completed, arrivalLoop_now]
    exact h.completed

theorem TimeLaws.grant (h : TimeLaws s) (tried : Resource ℕ × Option ℕ) :
    TimeLaws (s.grant tried) := by
  refine ⟨h.agenda.grant tried, ?_, ?_, ?_⟩
  · rw [grant_waiting, grant_now]
    exact h.waiting
  · rw [grant_running]
    exact h.running
  · rw [grant_completed, grant_now]
    exact h.completed

theorem TimeLaws.handled {event : SimEvent} (h : Handled scheduler s event t)
    (hevent : OnTime s.now event) (hs : TimeLaws s) : TimeLaws t := by
  cases h with
  | arrivals arrivals => exact hs.arrivalLoop arrivals
  | arrived job arrivals =>
    have harrived : TimeLaws (s.arrive scheduler job) := by
      refine ⟨List.forall_mem_cons.mpr ⟨trivial, hs.agenda⟩, ?_, hs.running, hs.completed⟩
      exact List.forall_mem_append.mpr ⟨hs.waiting, List.forall_mem_singleton.mpr hevent⟩
    exact harrived.arrivalLoop arrivals
  | asked worker => exact hs.grant _
  | began worker hselect hmem hnonneg =>
    refine ⟨List.forall_mem_cons.mpr ⟨rfl, hs.agenda⟩, ?_, ?_, hs.completed⟩
    · exact fun job hjob => hs.waiting job (List.mem_of_mem_erase hjob)
    · -- the chosen job has waited, so it starts now and not before it arrives
      have harrived := hs.waiting _ hmem
      exact List.forall_mem_append.mpr ⟨hs.running, List.forall_mem_singleton.mpr harrived⟩
  | completed worker hmem =>
    refine ⟨List.forall_mem_cons.mpr ⟨trivial, List.forall_mem_cons.mpr ⟨trivial, hs.agenda⟩⟩,
      hs.waiting, ?_, ?_⟩
    · exact fun job hjob => hs.running job (List.mem_of_mem_erase hjob)
    · have hstarted := hs.running _ hmem
      refine List.forall_mem_append.mpr ⟨hs.completed, List.forall_mem_singleton.mpr ?_⟩
      exact ⟨hstarted, hevent, le_refl s.now⟩
  | released worker => exact hs.grant _
  | ended => exact hs

theorem TimeLaws.taken {e : Scheduled ℚ SimEvent} {b : Agenda ℚ SimEvent} (h : TimeLaws s)
    (hnext : s.agenda.next = some (e, b)) :
    OnTime b.now e.event ∧ TimeLaws { s with agenda := b } := by
  have hnow : s.now ≤ b.now := Agenda.next_now hnext
  refine ⟨?_, ?_, ?_, h.running, ?_⟩
  · rw [(Agenda.next_eq_some hnext).2.1]
    exact h.agenda e (Agenda.next_mem hnext)
  · exact fun e' he' => h.agenda e' (Agenda.mem_of_next hnext he')
  · exact fun job hjob => (h.waiting job hjob).trans hnow
  · intro job hjob
    obtain ⟨harrival, hend, hle⟩ := h.completed job hjob
    exact ⟨harrival, hend, hle.trans hnow⟩

/-! ## History -/

structure HistoryLaws (n : ℕ) (s : Simulation σ) : Prop where
  parallel : ∀ time, (s.running ++ s.completed).countP (Job.RunsAt time) ≤ n
  selected : s.selections.length = s.running.length + s.completed.length
  nonempty : ∀ selection ∈ s.selections, selection.waiting ≠ []

theorem parallel_begin (worker : ℕ) {chosen : Job} (schedulerState : σ) (h : 0 ≤ chosen.trueMs)
    (hcompleted : ∀ job ∈ s.completed, job.startMs + job.trueMs ≤ s.now)
    (hparallel : ∀ time, (s.running ++ s.completed).countP (Job.RunsAt time) ≤ n)
    (hrunning : (s.begin worker chosen schedulerState h).running.length ≤ n) (time : ℚ) :
    ((s.begin worker chosen schedulerState h).running ++ s.completed).countP (Job.RunsAt time) ≤
      n := by
  by_cases htime : time < s.now
  · -- the job was not running then
    have hstarted : ¬ Job.RunsAt time { chosen with startMs := s.now } := fun hruns =>
      absurd hruns.1 (not_le.mpr htime)
    show ((s.running ++ [{ chosen with startMs := s.now }]) ++ s.completed).countP _ ≤ n
    rw [List.countP_append, List.countP_append, List.countP_singleton,
      if_neg (by simpa using hstarted), Nat.add_zero, ← List.countP_append]
    exact hparallel time
  · -- what is completed was over by then
    have hover : s.completed.countP (Job.RunsAt time) = 0 := by
      refine List.countP_eq_zero.mpr fun job hjob => ?_
      have hend : job.startMs + job.trueMs ≤ time := (hcompleted job hjob).trans (not_lt.mp htime)
      simpa using fun hruns : Job.RunsAt time job => absurd hruns.2 (not_lt.mpr hend)
    rw [List.countP_append, hover]
    exact List.countP_le_length.trans hrunning

theorem parallel_complete (worker : ℕ) {chosen : Job} (hmem : chosen ∈ s.running) (time : ℚ) :
    ((s.complete worker chosen).running ++ (s.complete worker chosen).completed).countP
      (Job.RunsAt time) = (s.running ++ s.completed).countP (Job.RunsAt time) := by
  have hrunning : s.running.countP (Job.RunsAt time) =
      [chosen].countP (Job.RunsAt time) + (s.running.erase chosen).countP (Job.RunsAt time) := by
    rw [← List.countP_append]
    exact (List.perm_cons_erase hmem).countP_eq _
  -- when it ends is no part of when it runs
  have hsame : [{ chosen with endMs := s.now, remainingMs := 0 }].countP (Job.RunsAt time) =
      [chosen].countP (Job.RunsAt time) := rfl
  show (s.running.erase chosen ++ (s.completed ++ [_])).countP _ = _
  rw [List.countP_append, List.countP_append, List.countP_append, hsame, hrunning]
  omega

theorem HistoryLaws.arrivalLoop (h : HistoryLaws n s) (arrivals : List Job) :
    HistoryLaws n (s.arrivalLoop arrivals) := by
  refine ⟨?_, ?_, ?_⟩
  · rw [arrivalLoop_running, arrivalLoop_completed]
    exact h.parallel
  · rw [arrivalLoop_selections, arrivalLoop_running, arrivalLoop_completed]
    exact h.selected
  · rw [arrivalLoop_selections]
    exact h.nonempty

theorem HistoryLaws.grant (h : HistoryLaws n s) (tried : Resource ℕ × Option ℕ) :
    HistoryLaws n (s.grant tried) := by
  refine ⟨?_, ?_, ?_⟩
  · rw [grant_running, grant_completed]
    exact h.parallel
  · rw [grant_selections, grant_running, grant_completed]
    exact h.selected
  · rw [grant_selections]
    exact h.nonempty

theorem HistoryLaws.handled {event : SimEvent} (h : Handled scheduler s event t)
    (hrunning : t.running.length ≤ n) (htimes : TimeLaws s) (hs : HistoryLaws n s) :
    HistoryLaws n t := by
  cases h with
  | arrivals arrivals => exact hs.arrivalLoop arrivals
  | arrived job arrivals =>
    have harrived : HistoryLaws n (s.arrive scheduler job) :=
      ⟨hs.parallel, hs.selected, hs.nonempty⟩
    exact harrived.arrivalLoop arrivals
  | asked worker => exact hs.grant _
  | began worker hselect hmem hnonneg =>
    refine ⟨?_, ?_, ?_⟩
    · refine parallel_begin worker _ hnonneg (fun job hjob => ?_) hs.parallel hrunning
      obtain ⟨-, hend, hle⟩ := htimes.completed job hjob
      exact hend ▸ hle
    · have hselected := hs.selected
      show (s.selections ++ [_]).length = (s.running ++ [_]).length + s.completed.length
      rw [List.length_append, List.length_append, List.length_singleton, List.length_singleton]
      omega
    · exact List.forall_mem_append.mpr
        ⟨hs.nonempty, List.forall_mem_singleton.mpr (List.ne_nil_of_mem hmem)⟩
  | completed worker hmem =>
    refine ⟨fun time => ?_, ?_, hs.nonempty⟩
    · exact (parallel_complete worker hmem time).trans_le (hs.parallel time)
    · have hselected := hs.selected
      have hpos := List.length_pos_of_mem hmem
      show s.selections.length = (s.running.erase _).length + (s.completed ++ [_]).length
      rw [List.length_erase_of_mem hmem, List.length_append, List.length_singleton]
      omega
  | released worker => exact hs.grant _
  | ended => exact hs

/-! ## Together -/

structure Laws (n : ℕ) (jobs : List Job) (s : Simulation σ) : Prop where
  slots : SlotLaws n s
  jobs : JobLaws jobs s
  times : TimeLaws s
  history : HistoryLaws n s

theorem Laws.step {jobs : List Job} (h : Laws n jobs s) (hstep : s.step scheduler = some (.ok t)) :
    Laws n jobs t := by
  have hslots := h.slots.step hstep
  have hjobs := h.jobs.step hstep
  obtain ⟨e, b, hnext, hhandled⟩ := step_handled hstep
  obtain ⟨hevent, htimes⟩ := h.times.taken hnext
  have hhistory : HistoryLaws n { s with agenda := b } :=
    ⟨h.history.parallel, h.history.selected, h.history.nonempty⟩
  exact ⟨hslots, hjobs, htimes.handled hhandled hevent,
    hhistory.handled hhandled (running_le hslots hjobs) htimes⟩

theorem grant_schedulerState (s : Simulation σ) (tried : Resource ℕ × Option ℕ) :
    (s.grant tried).schedulerState = s.schedulerState := by
  unfold grant
  dsimp only
  split <;> rfl

theorem arrivalLoop_schedulerState (s : Simulation σ) (arrivals : List Job) :
    (s.arrivalLoop arrivals).schedulerState = s.schedulerState := by
  cases arrivals <;> rfl

theorem arrive_schedulerState {jobs : List Job} {I : σ → Prop} {s : Simulation σ}
    (hselect : scheduler.SelectsAmong I jobs) (hstate : I s.schedulerState) (job : Job) :
    I (s.arrive scheduler job).schedulerState := by
  unfold arrive
  cases s.running.getLast? with
  | none => exact hstate
  | some last => exact hselect.onArrival hstate

/-- No event raises: a process with a granted request finds a job that waits. -/
theorem Laws.progress {jobs : List Job} (h : Laws n jobs s) {I : σ → Prop}
    (hselect : scheduler.SelectsAmong I jobs) (hstate : I s.schedulerState)
    (htrue : ∀ job ∈ jobs, 0 ≤ job.trueMs) {e : Scheduled ℚ SimEvent} {b : Agenda ℚ SimEvent}
    (hnext : s.agenda.next = some (e, b)) :
    ∃ t, handle scheduler { s with agenda := b } e.event = .ok t ∧ I t.schedulerState := by
  have hclaimed := h.slots.claimed
  have hserved := h.jobs.served
  rw [Agenda.total_next claims hnext] at hclaimed
  rw [Agenda.total_next serving hnext] at hserved
  cases hevent : e.event with
  | arrivalsInit arrivals =>
    refine ⟨_, rfl, ?_⟩
    rw [arrivalLoop_schedulerState]
    exact hstate
  | arrivalTimeout job arrivals =>
    refine ⟨_, rfl, ?_⟩
    rw [arrivalLoop_schedulerState]
    exact arrive_schedulerState (s := { s with agenda := b }) hselect hstate job
  | workerInit worker =>
    refine ⟨_, rfl, ?_⟩
    rw [grant_schedulerState]
    exact hstate
  | request worker =>
    have hwaiting : s.waiting ≠ [] := by
      rintro hnil
      rw [hevent, hnil, List.length_nil] at hclaimed
      change 1 + _ + _ = 0 at hclaimed
      omega
    obtain ⟨chosen, hmem, state, hchosen, hnewState⟩ :=
      hselect.selects hstate hwaiting h.jobs.waiting_subperm
    have hknown : chosen ∈ known s :=
      Multiset.mem_add.mpr (.inl (Multiset.mem_add.mpr (.inl hmem)))
    have hnonneg := h.jobs.trueMs_nonneg htrue hknown
    refine ⟨begin { s with agenda := b } worker chosen state hnonneg, ?_, hnewState⟩
    simp only [handle, acquire, hchosen]
    rw [if_pos hmem, dif_pos hnonneg]
  | jobTimeout worker chosen =>
    have hmem : chosen ∈ s.running := by
      rw [← Multiset.mem_coe, hserved, hevent]
      exact Multiset.mem_add.mpr (.inl (Multiset.mem_singleton_self chosen))
    refine ⟨complete { s with agenda := b } worker chosen, ?_, hstate⟩
    simp only [handle]
    rw [if_pos hmem]
  | release worker =>
    refine ⟨_, rfl, ?_⟩
    rw [grant_schedulerState]
    exact hstate
  | processEnd => exact ⟨_, rfl, hstate⟩

/-- With enough fuel the event loop runs until nothing is scheduled. -/
theorem Laws.exists_final {jobs : List Job} (h : Laws n jobs s) {I : σ → Prop}
    (hselect : scheduler.SelectsAmong I jobs) (hstate : I s.schedulerState)
    (htrue : ∀ job ∈ jobs, 0 ≤ job.trueMs) :
    ∃ t, t.agenda.entries = [] ∧ Laws n jobs t ∧ I t.schedulerState ∧
      ∀ fuel, workLeft s < fuel → runFor scheduler fuel s = some (.ok t) := by
  induction hwork : workLeft s using Nat.strong_induction_on generalizing s with
  | h work ih =>
    cases hnext : s.agenda.next with
    | none =>
      refine ⟨s, Agenda.next_eq_none_iff.mp hnext, h, hstate, fun fuel hfuel => ?_⟩
      obtain ⟨fuel, rfl⟩ := Nat.exists_eq_succ_of_ne_zero (Nat.ne_of_gt (Nat.zero_lt_of_lt hfuel))
      have hstep : s.step scheduler = none := by rw [Simulation.step, hnext, Option.map_none]
      rw [runFor, hstep]
    | some taken =>
      obtain ⟨s', hhandle, hstate'⟩ := h.progress hselect hstate htrue hnext
      have hstep : s.step scheduler = some (.ok s') := by
        rw [Simulation.step, hnext, Option.map_some, hhandle]
      have hless := workLeft_step hstep
      obtain ⟨t, hentries, hlaws, hended, hrun⟩ := ih (workLeft s') (by omega) (h.step hstep) hstate' rfl
      refine ⟨t, hentries, hlaws, hended, fun fuel hfuel => ?_⟩
      obtain ⟨fuel, rfl⟩ := Nat.exists_eq_succ_of_ne_zero (Nat.ne_of_gt (Nat.zero_lt_of_lt hfuel))
      rw [runFor, hstep]
      exact hrun fuel (by omega)

/-- When nothing is scheduled, everything is completed. -/
theorem Laws.final {jobs : List Job} (h : Laws n jobs s) (hn : 1 ≤ n)
    (hentries : s.agenda.entries = []) :
    (s.completed.map Job.asGiven).Perm (jobs.map Job.asGiven) ∧ s.running = [] := by
  have hrunning : s.running = [] := by
    rw [← Multiset.coe_eq_zero, h.jobs.served]
    exact Agenda.total_eq_zero serving hentries
  have husers : s.workers.users = [] := by
    rw [← Multiset.coe_eq_zero, h.slots.users]
    exact Agenda.total_eq_zero holder hentries
  have hcovered := h.slots.covered
  rw [Agenda.total_eq_zero tries hentries] at hcovered
  have hqueue : s.workers.putQueue = [] :=
    hcovered.queue_eq_nil husers (h.slots.capacity.symm ▸ hn)
  have hwaiting : s.waiting = [] := by
    have hclaimed := h.slots.claimed
    rw [Agenda.total_eq_zero claims hentries, hqueue] at hclaimed
    exact List.length_eq_zero_iff.mp hclaimed.symm
  have hconserved := h.jobs.conserved
  rw [Agenda.total_eq_zero arriving hentries, known, hwaiting, hrunning, Multiset.coe_nil,
    zero_add, zero_add, zero_add, Multiset.map_coe, Multiset.map_coe] at hconserved
  exact ⟨Multiset.coe_eq_coe.mp hconserved, hrunning⟩

end Step

end Simulation

/-! ## The whole run -/

namespace Simulator
open Simulation

variable {σ : Type} (sim : Simulator σ) (schedulerState : σ) (jobs : List Job)

theorem total_initial {M : Type*} [AddCommMonoid M] (f : SimEvent → M) :
    (sim.initial schedulerState jobs).agenda.total f = f (.arrivalsInit (arrivalOrder jobs)) := by
  simp [initial]

theorem initial_laws : Laws sim.nWorkers jobs (sim.initial schedulerState jobs) where
  slots := by
    refine ⟨rfl, ?_, ?_, fun hne => absurd rfl hne⟩
    · rw [total_initial]
      rfl
    · rw [total_initial]
      rfl
  jobs := by
    refine ⟨?_, ?_⟩
    · rw [total_initial]
      exact congrArg _ ((add_zero _).trans
        (Multiset.coe_eq_coe.mpr (List.perm_insertionSort _ jobs)))
    · rw [total_initial]
      rfl
  times := ⟨List.forall_mem_singleton.mpr trivial, List.forall_mem_nil _, List.forall_mem_nil _,
    List.forall_mem_nil _⟩
  history := ⟨fun _ => Nat.zero_le _, rfl, List.forall_mem_nil _⟩

theorem initial_workLeft :
    workLeft (sim.initial schedulerState jobs) = 6 * jobs.length + 2 := by
  rw [workLeft, total_initial]
  show 6 * (arrivalOrder jobs).length + 2 + 4 * 0 = 6 * jobs.length + 2
  rw [arrivalOrder, List.length_insertionSort]

theorem run_conserves_jobs (hselect : sim.scheduler.Selects)
    (htrue : ∀ job ∈ jobs, 0 ≤ job.trueMs) :
    ∃ ended : Simulation σ,
      (∀ fuel > 6 * jobs.length + 2,
        (sim.initial schedulerState jobs).runFor sim.scheduler fuel = some (.ok ended) ∧
          sim.run schedulerState fuel jobs = some (.ok ⟨sim.scheduler.name, ended.completed⟩)) ∧
      (ended.completed.map Job.asGiven).Perm (jobs.map Job.asGiven) ∧
      (∀ job ∈ ended.completed,
        job.arrivalMs ≤ job.startMs ∧ job.endMs = job.startMs + job.trueMs) ∧
      (∀ time, ended.completed.countP (fun job => job.startMs ≤ time ∧ time < job.endMs) ≤
        sim.nWorkers) ∧
      ended.selections.length = jobs.length ∧
      (∀ selection ∈ ended.selections, selection.waiting ≠ []) ∧
      ∀ steps s, Run (Steps sim.scheduler) (sim.initial schedulerState jobs) steps s →
        s.running.length ≤ sim.nWorkers := by
  have hinitial := sim.initial_laws schedulerState jobs
  obtain ⟨ended, hentries, hlaws, -, hrun⟩ :=
    hinitial.exists_final (hselect.among jobs) trivial htrue
  obtain ⟨hperm, hrunning⟩ := hlaws.final sim.positive hentries
  rw [initial_workLeft] at hrun
  refine ⟨ended, fun fuel hfuel => ⟨hrun fuel hfuel, ?_⟩, hperm, fun job hjob => ?_, fun time => ?_,
    ?_, hlaws.history.nonempty, fun steps s hsteps => ?_⟩
  · rw [run, hrun fuel hfuel]
    rfl
  · obtain ⟨harrival, hend, -⟩ := hlaws.times.completed job hjob
    exact ⟨harrival, hend⟩
  · have hparallel := hlaws.history.parallel time
    rw [hrunning, List.nil_append] at hparallel
    refine le_of_eq_of_le (List.countP_congr fun job hjob => ?_) hparallel
    rw [(hlaws.times.completed job hjob).2.1]
    rfl
  · have hselected := hlaws.history.selected
    have hlength := hperm.length_eq
    rw [hrunning, List.length_nil, Nat.zero_add] at hselected
    rw [List.length_map, List.length_map] at hlength
    exact hselected.trans hlength
  · have hs : Laws sim.nWorkers jobs s :=
      hsteps.preserves (fun _ _ _ hstep h => h.step hstep) hinitial
    exact running_le hs.slots hs.jobs

/-- A long job and, while it runs, two that arrive at one time. -/
def overlappingJobs : List Job :=
  [{ jobId := "a", taskType := "resize", payloadSize := 1, trueMs := 5, arrivalMs := 0 },
    { jobId := "b", taskType := "resize", payloadSize := 1, trueMs := 2, arrivalMs := 3 },
    { jobId := "c", taskType := "resize", payloadSize := 1, trueMs := 0, arrivalMs := 3 }]

theorem run_conserves_jobs_overlapping :
    ∃ ended : Simulation Unit,
      Simulator.run ⟨FCFSScheduler, 2, by decide⟩ () 21 overlappingJobs =
        some (.ok ⟨"fcfs", ended.completed⟩) ∧
      (ended.completed.map Job.asGiven).Perm (overlappingJobs.map Job.asGiven) ∧
      ended.selections.length = 3 := by
  obtain ⟨ended, hrun, hperm, -, -, hselected, -⟩ :=
    run_conserves_jobs ⟨FCFSScheduler, 2, by decide⟩ () overlappingJobs fcfs_selects (by decide)
  exact ⟨ended, (hrun 21 (by decide)).2, hperm, hselected⟩

end Simulator

end Chronoq.Bench
