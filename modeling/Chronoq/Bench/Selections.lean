import Chronoq.Bench.JobConservation
import Chronoq.Foundations.Schedule

/-! # The calls of `select`, in their order

The jobs are handed over to the waiting list one after another in arrival order, and every call of
`select` takes one of them out. What a run did is in the list of these calls.

* `Job.arrivesAt`: the instant at which the arrival process hands a job over.
* `Timely`: when an event is due; the events that are scheduled without a delay are due at once.
* `TraceLaws`: the jobs handed over are a first part of the arrival order and are waiting or chosen;
  the completed and the running jobs are the chosen ones, with the time of their call as start. -/

namespace Chronoq.Bench
open Foundations

set_option autoImplicit false

/-! ## Jobs and calls -/

/-- `env.timeout(max(0.0, ...))` does not reach back before the start of the simulation. -/
def Job.arrivesAt (job : Job) : ℚ := max 0 job.arrivalMs

/-- The job as a run hands it back that started it at `start`. -/
def Job.finished (job : Job) (start : ℚ) : Job :=
  { job with startMs := start, endMs := start + job.trueMs, remainingMs := 0 }

def Selection.started (c : Selection) : Job × ℚ := (c.chosen, c.time)

def Selection.finished (c : Selection) : Job := c.chosen.finished c.time

theorem Job.arrivesAt_le_iff {job : Job} {t : ℚ} (ht : 0 ≤ t) :
    job.arrivesAt ≤ t ↔ job.arrivalMs ≤ t := by
  rw [Job.arrivesAt, max_le_iff]
  exact and_iff_right ht

theorem Job.arrivesAt_of_nonneg {job : Job} (h : 0 ≤ job.arrivalMs) : job.arrivesAt = job.arrivalMs :=
  max_eq_right h

theorem Job.arrivesAt_mono {job job' : Job} (h : job.arrivalMs ≤ job'.arrivalMs) :
    job.arrivesAt ≤ job'.arrivesAt := max_le_max le_rfl h

def ByArrival (jobs : List Job) : Prop := jobs.Pairwise fun a b => a.arrivalMs ≤ b.arrivalMs

namespace Simulator

theorem arrivalOrder_perm (jobs : List Job) : (arrivalOrder jobs).Perm jobs :=
  List.perm_insertionSort _ _

theorem byArrival_arrivalOrder (jobs : List Job) : ByArrival (arrivalOrder jobs) :=
  List.pairwise_insertionSort _ _

end Simulator

namespace SimEvent

/-- The jobs not yet handed over, if there are any. -/
def batch : List Job → Multiset (List Job)
  | [] => 0
  | job :: jobs => {job :: jobs}

def upcoming : SimEvent → Multiset (List Job)
  | .arrivalsInit arrivals => batch arrivals
  | .arrivalTimeout job arrivals => batch (job :: arrivals)
  | _ => 0

theorem eq_of_batch_add {jobs jobs' : List Job} {job : Job} {rest : Multiset (List Job)}
    (h : batch (job :: jobs) + rest = batch jobs') : jobs' = job :: jobs ∧ rest = 0 := by
  cases jobs' with
  | nil =>
    have hcard := congrArg Multiset.card h
    simp [batch] at hcard
  | cons job' jobs' =>
    change {job :: jobs} + rest = ({job' :: jobs'} : Multiset (List Job)) at h
    exact (Multiset.singleton_eq_cons_iff _).mp h.symm

/-- When the event is due, at time `now` of the simulation. -/
def Timely (now time : ℚ) : SimEvent → Prop
  | .arrivalsInit arrivals => time = now ∧ time = 0 ∧ ByArrival arrivals
  | .arrivalTimeout job arrivals => time = job.arrivesAt ∧ ByArrival (job :: arrivals)
  | .jobTimeout _ _ => True
  | _ => time = now

end SimEvent

open SimEvent

namespace Simulation
variable {σ : Type} {scheduler : BaseScheduler σ} {s t : Simulation σ}

@[simp] theorem upcoming_arrivalEvent (arrivals : List Job) :
    upcoming (arrivalEvent arrivals) = batch arrivals := by cases arrivals <;> rfl

/-! ## When the events are due -/

def AgendaTimely (s : Simulation σ) : Prop := ∀ e ∈ s.agenda.entries, Timely s.now e.time e.event

theorem AgendaTimely.scheduleNow (h : AgendaTimely s) (priority : ℕ) {event : SimEvent}
    (hevent : Timely s.now s.now event) : AgendaTimely (s.scheduleNow priority event) :=
  List.forall_mem_cons.mpr ⟨hevent, h⟩

theorem AgendaTimely.timeout (h : AgendaTimely s) {delay : ℚ} (hdelay : 0 ≤ delay)
    {event : SimEvent} (hevent : Timely s.now (s.now + delay) event) :
    AgendaTimely (s.timeout delay hdelay event) :=
  List.forall_mem_cons.mpr ⟨hevent, h⟩

/-- The arrival process does not come back to the loop after the next job has arrived. -/
theorem AgendaTimely.arrivalLoop (h : AgendaTimely s) {arrivals : List Job}
    (hsorted : ByArrival arrivals) (hzero : 0 ≤ s.now)
    (hnow : ∀ job ∈ arrivals, s.now ≤ job.arrivesAt) : AgendaTimely (s.arrivalLoop arrivals) := by
  cases arrivals with
  | nil => exact h.scheduleNow normal rfl
  | cons job arrivals =>
    refine h.timeout (le_max_left _ _) ⟨?_, hsorted⟩
    have hle := hnow job List.mem_cons_self
    have htime : s.now + max 0 (job.arrivalMs - s.now) = max s.now job.arrivalMs := by
      rw [add_comm, max_add, zero_add, sub_add_cancel]
    rw [htime, Job.arrivesAt]
    refine le_antisymm (max_le hle (le_max_right _ _)) (max_le_max hzero le_rfl)

theorem AgendaTimely.grant (h : AgendaTimely s) (tried : Resource ℕ × Option ℕ) :
    AgendaTimely (s.grant tried) := by
  obtain ⟨r, _ | worker⟩ := tried
  · exact h
  · exact AgendaTimely.scheduleNow (s := { s with workers := r }) h normal rfl

theorem AgendaTimely.handled {event : SimEvent} (h : Handled scheduler s event t)
    (hevent : Timely s.now s.now event) (hs : AgendaTimely s) (hzero : 0 ≤ s.now) :
    AgendaTimely t := by
  cases h with
  | arrivals arrivals =>
    obtain ⟨-, hnow, hsorted⟩ := hevent
    refine hs.arrivalLoop hsorted hzero fun job _ => ?_
    rw [hnow]
    exact le_max_left _ _
  | arrived job arrivals =>
    obtain ⟨hnow, hsorted⟩ := hevent
    obtain ⟨hfirst, hsorted⟩ := List.pairwise_cons.mp hsorted
    have harrive : AgendaTimely (s.arrive scheduler job) := List.forall_mem_cons.mpr ⟨rfl, hs⟩
    refine harrive.arrivalLoop hsorted hzero fun job' hjob' => ?_
    exact hnow.trans_le (Job.arrivesAt_mono (hfirst job' hjob'))
  | asked worker => exact hs.grant _
  | began worker hselect hmem hnonneg => exact List.forall_mem_cons.mpr ⟨trivial, hs⟩
  | completed worker hmem =>
    exact List.forall_mem_cons.mpr ⟨rfl, List.forall_mem_cons.mpr ⟨rfl, hs⟩⟩
  | released worker => exact hs.grant _
  | ended => exact hs

/-- What is due at once is taken before the clock moves. -/
theorem AgendaTimely.taken {e : Scheduled ℚ SimEvent} {b : Agenda ℚ SimEvent} (h : AgendaTimely s)
    (hnext : s.agenda.next = some (e, b)) :
    Timely b.now b.now e.event ∧ AgendaTimely { s with agenda := b } := by
  have hnow : s.now ≤ b.now := Agenda.next_now hnext
  have htime := (Agenda.next_eq_some hnext).2.1
  have hkeep : ∀ e' ∈ s.agenda.entries, b.now ≤ e'.time → Timely b.now e'.time e'.event := by
    intro e' he' hle
    have hold := h e' he'
    have hsame : e'.time = s.now → e'.time = b.now := fun heq =>
      le_antisymm (heq.trans_le hnow) hle
    cases hevent : e'.event with
    | arrivalsInit arrivals =>
      rw [hevent] at hold
      exact ⟨hsame hold.1, hold.2⟩
    | jobTimeout worker chosen => trivial
    | arrivalTimeout job arrivals =>
      rw [hevent] at hold
      exact hold
    | workerInit worker =>
      rw [hevent] at hold
      exact hsame hold
    | request worker =>
      rw [hevent] at hold
      exact hsame hold
    | release worker =>
      rw [hevent] at hold
      exact hsame hold
    | processEnd =>
      rw [hevent] at hold
      exact hsame hold
  refine ⟨?_, fun e' he' => ?_⟩
  · have htaken := hkeep e (Agenda.next_mem hnext) htime.le
    rwa [← htime] at htaken
  · refine hkeep e' (Agenda.mem_of_next hnext he') (htime.trans_le ?_)
    exact Agenda.time_le_of_key_le (Agenda.next_lt hnext he').le

theorem handled_now {event : SimEvent} (h : Handled scheduler s event t) : t.now = s.now := by
  cases h with
  | arrivals arrivals => exact arrivalLoop_now s arrivals
  | arrived job arrivals => exact arrivalLoop_now _ arrivals
  | asked worker => exact grant_now s _
  | began worker hselect hmem hnonneg => rfl
  | completed worker hmem => rfl
  | released worker => exact grant_now s _
  | ended => rfl

/-! ## What an event does to the waiting list -/

/-- A job is handed over, or `select` takes one, or neither. -/
inductive Queued (scheduler : BaseScheduler σ) (s t : Simulation σ) : SimEvent → Prop
  | handedOver (job : Job) (arrivals : List Job) (hwaiting : t.waiting = s.waiting ++ [job])
    (hselections : t.selections = s.selections)
    (hupcoming : t.agenda.total upcoming = batch arrivals + s.agenda.total upcoming) :
    Queued scheduler s t (.arrivalTimeout job arrivals)
  | selected (worker : ℕ) {chosen : Job} {schedulerState : σ}
    (hselect : scheduler.select s.schedulerState s.waiting = .ok (chosen, schedulerState))
    (hmem : chosen ∈ s.waiting) (hwaiting : t.waiting = s.waiting.erase chosen)
    (hselections : t.selections = s.selections ++ [⟨s.now, s.waiting, chosen⟩])
    (hupcoming : t.agenda.total upcoming = s.agenda.total upcoming) :
    Queued scheduler s t (.request worker)
  | unchanged {event : SimEvent} (hwaiting : t.waiting = s.waiting)
    (hselections : t.selections = s.selections)
    (hupcoming : t.agenda.total upcoming = upcoming event + s.agenda.total upcoming) :
    Queued scheduler s t event

theorem queued_of_handled {event : SimEvent} (h : Handled scheduler s event t) :
    Queued scheduler s t event := by
  cases h with
  | arrivals arrivals =>
    refine .unchanged (arrivalLoop_waiting s arrivals) (arrivalLoop_selections s arrivals) ?_
    rw [total_arrivalLoop, upcoming_arrivalEvent]
    rfl
  | arrived job arrivals =>
    refine .handedOver job arrivals (arrivalLoop_waiting _ arrivals)
      (arrivalLoop_selections _ arrivals) ?_
    rw [total_arrivalLoop, upcoming_arrivalEvent, total_arrive]
    exact congrArg _ (zero_add _)
  | asked worker =>
    refine .unchanged (grant_waiting s _) (grant_selections s _) ?_
    rw [total_grant_eq s _ upcoming fun _ => rfl]
    exact (zero_add _).symm
  | began worker hselect hmem hnonneg =>
    refine .selected worker hselect hmem rfl rfl ?_
    rw [total_begin]
    exact zero_add _
  | completed worker hmem =>
    refine .unchanged rfl rfl ?_
    rw [total_complete]
    exact zero_add _
  | released worker =>
    refine .unchanged (grant_waiting s _) (grant_selections s _) ?_
    rw [total_grant_eq s _ upcoming fun _ => rfl]
    exact (zero_add _).symm
  | ended => exact .unchanged rfl rfl (zero_add _).symm

/-! ## The trace -/

/-- What `select` was called with and what it took, after the jobs `before`. -/
structure Called (scheduler : BaseScheduler σ) (order before : List Job) (c : Selection) : Prop where
  handedOver : ∃ seen, seen <+: order ∧ (c.waiting ++ before).Perm seen
  mem : c.chosen ∈ c.waiting
  selected : ∃ state state', scheduler.select state c.waiting = .ok (c.chosen, state')

/-- The jobs of `order` that are handed over; they are waiting or chosen. -/
def HandedOver (order : List Job) (upcomingJobs : Multiset (List Job)) (s : Simulation σ) : Prop :=
  ∃ seen future, order = seen ++ future ∧ upcomingJobs = batch future ∧
    (s.waiting ++ s.selections.map Selection.chosen).Perm seen

/-- The calls of `select` so far, each no earlier than the arrival of the job it takes. -/
structure CallLaws (scheduler : BaseScheduler σ) (order : List Job) (s : Simulation σ) : Prop where
  arrived : ∀ job ∈ s.waiting, job.arrivesAt ≤ s.now
  past : ∀ c ∈ s.selections, c.chosen.arrivesAt ≤ c.time ∧ c.time ≤ s.now
  inOrder : s.selections.Pairwise fun (c c' : Selection) => c.time ≤ c'.time
  each : EachWithPast (fun before c => Called scheduler order (before.map Selection.chosen) c)
    s.selections

/-- `order` is the arrival order. -/
structure TraceLaws (scheduler : BaseScheduler σ) (order : List Job) (s : Simulation σ) : Prop where
  agenda : AgendaTimely s
  started : 0 ≤ s.now
  handedOver : HandedOver order (s.agenda.total upcoming) s
  calls : CallLaws scheduler order s
  jobs : (s.completed ++ s.running.map fun job => job.finished job.startMs).Perm
    (s.selections.map Selection.finished)

theorem HandedOver.queued {order : List Job} {event : SimEvent} (h : Queued scheduler s t event)
    (hs : HandedOver order (upcoming event + s.agenda.total upcoming) s) :
    HandedOver order (t.agenda.total upcoming) t := by
  obtain ⟨seen, future, horder, hfuture, hperm⟩ := hs
  cases h with
  | handedOver job arrivals hwaiting hselections hupcoming =>
    obtain ⟨rfl, hrest⟩ := eq_of_batch_add hfuture
    refine ⟨seen ++ [job], arrivals, by rw [horder, List.append_assoc]; rfl, ?_, ?_⟩
    · rw [hupcoming, hrest, add_zero]
    · rw [hwaiting, hselections, List.append_assoc]
      refine (List.perm_append_comm.append_left _).trans ?_
      rw [← List.append_assoc]
      exact hperm.append_right _
  | selected worker hselect hmem hwaiting hselections hupcoming =>
    refine ⟨seen, future, horder, ?_, ?_⟩
    · rw [hupcoming, ← hfuture]
      exact (zero_add _).symm
    · rw [hwaiting, hselections, List.map_append, ← List.append_assoc]
      refine List.perm_append_comm.trans (List.Perm.trans ?_ hperm)
      exact (List.perm_cons_erase hmem).symm.append_right _
  | unchanged hwaiting hselections hupcoming =>
    refine ⟨seen, future, horder, hupcoming.trans hfuture, ?_⟩
    rw [hwaiting, hselections]
    exact hperm

theorem jobs_handled {event : SimEvent} (h : Handled scheduler s event t)
    (hevent : OnTime s.now event)
    (hs : (s.completed ++ s.running.map fun job => job.finished job.startMs).Perm
      (s.selections.map Selection.finished)) :
    (t.completed ++ t.running.map fun job => job.finished job.startMs).Perm
      (t.selections.map Selection.finished) := by
  cases h with
  | arrivals arrivals =>
    rw [arrivalLoop_completed, arrivalLoop_running, arrivalLoop_selections]
    exact hs
  | arrived job arrivals =>
    rw [arrivalLoop_completed, arrivalLoop_running, arrivalLoop_selections]
    exact hs
  | asked worker =>
    rw [grant_completed, grant_running, grant_selections]
    exact hs
  | began worker hselect hmem hnonneg =>
    show (s.completed ++ (s.running ++ [_]).map _).Perm ((s.selections ++ [_]).map _)
    rw [List.map_append, List.map_append, ← List.append_assoc]
    exact hs.append_right _
  | @completed worker chosen hmem =>
    -- the job ends when its time is over
    have hdone : ({ chosen with endMs := s.now, remainingMs := 0 } : Job) =
        chosen.finished chosen.startMs := by
      have hnow : s.now = chosen.startMs + chosen.trueMs := hevent
      rw [Job.finished, hnow]
    show ((s.completed ++ [_]) ++ (s.running.erase chosen).map _).Perm (s.selections.map _)
    rw [hdone, List.append_assoc]
    refine List.Perm.trans (List.Perm.append_left _ ?_) hs
    exact ((List.perm_cons_erase hmem).map fun job => job.finished job.startMs).symm
  | released worker =>
    rw [grant_completed, grant_running, grant_selections]
    exact hs
  | ended => exact hs

theorem CallLaws.taken {order : List Job} {e : Scheduled ℚ SimEvent} {b : Agenda ℚ SimEvent}
    (h : CallLaws scheduler order s) (hnext : s.agenda.next = some (e, b)) :
    CallLaws scheduler order { s with agenda := b } := by
  have hnow : s.now ≤ b.now := Agenda.next_now hnext
  refine ⟨fun job hjob => (h.arrived job hjob).trans hnow, fun c hc => ?_, h.inOrder, h.each⟩
  obtain ⟨harrival, hpast⟩ := h.past c hc
  exact ⟨harrival, hpast.trans hnow⟩

theorem CallLaws.queued {order : List Job} {event : SimEvent} (h : Queued scheduler s t event)
    (htimely : Timely s.now s.now event) (hnow : t.now = s.now) {upcomingJobs : Multiset (List Job)}
    (hhanded : HandedOver order upcomingJobs s) (hs : CallLaws scheduler order s) :
    CallLaws scheduler order t := by
  cases h with
  | handedOver job arrivals hwaiting hselections hupcoming =>
    refine ⟨?_, ?_, ?_, ?_⟩
    · rw [hwaiting, hnow]
      exact List.forall_mem_append.mpr ⟨hs.arrived, List.forall_mem_singleton.mpr htimely.1.ge⟩
    · rw [hselections, hnow]
      exact hs.past
    · rw [hselections]
      exact hs.inOrder
    · rw [hselections]
      exact hs.each
  | selected worker hselect hmem hwaiting hselections hupcoming =>
    obtain ⟨seen, future, horder, -, hperm⟩ := hhanded
    refine ⟨?_, ?_, ?_, ?_⟩
    · rw [hwaiting, hnow]
      exact fun job hjob => hs.arrived job (List.mem_of_mem_erase hjob)
    · rw [hselections, hnow]
      exact List.forall_mem_append.mpr
        ⟨hs.past, List.forall_mem_singleton.mpr ⟨hs.arrived _ hmem, le_rfl⟩⟩
    · rw [hselections, List.pairwise_append]
      refine ⟨hs.inOrder, List.pairwise_singleton _ _, fun c hc c' hc' => ?_⟩
      rw [List.mem_singleton.mp hc']
      exact (hs.past c hc).2
    · rw [hselections]
      exact hs.each.concat ⟨⟨seen, ⟨future, horder.symm⟩, hperm⟩, hmem, ⟨_, _, hselect⟩⟩
  | unchanged hwaiting hselections hupcoming =>
    refine ⟨?_, ?_, ?_, ?_⟩
    · rw [hwaiting, hnow]
      exact hs.arrived
    · rw [hselections, hnow]
      exact hs.past
    · rw [hselections]
      exact hs.inOrder
    · rw [hselections]
      exact hs.each

theorem TraceLaws.step {order : List Job} (h : TraceLaws scheduler order s) (htimes : TimeLaws s)
    (hstep : s.step scheduler = some (.ok t)) : TraceLaws scheduler order t := by
  obtain ⟨e, b, hnext, hhandled⟩ := step_handled hstep
  obtain ⟨htimely, hagenda⟩ := h.agenda.taken hnext
  obtain ⟨hontime, -⟩ := htimes.taken hnext
  have htnow : t.now = b.now := handled_now hhandled
  have hstarted : 0 ≤ b.now := h.started.trans (Agenda.next_now hnext)
  have hqueued := queued_of_handled hhandled
  have hhanded : HandedOver order (upcoming e.event + b.total upcoming) { s with agenda := b } := by
    rw [← Agenda.total_next upcoming hnext]
    exact h.handedOver
  exact ⟨hagenda.handled hhandled htimely hstarted, htnow ▸ hstarted, hhanded.queued hqueued,
    (h.calls.taken hnext).queued hqueued htimely htnow hhanded, jobs_handled hhandled hontime h.jobs⟩

theorem initial_traceLaws (sim : Simulator σ) (schedulerState : σ) (jobs : List Job) :
    TraceLaws sim.scheduler (Simulator.arrivalOrder jobs) (sim.initial schedulerState jobs) where
  agenda := List.forall_mem_singleton.mpr ⟨rfl, rfl, Simulator.byArrival_arrivalOrder jobs⟩
  started := le_rfl
  handedOver := ⟨[], Simulator.arrivalOrder jobs, rfl, Simulator.total_initial sim schedulerState
    jobs upcoming, List.Perm.refl _⟩
  calls := ⟨List.forall_mem_nil _, List.forall_mem_nil _, List.Pairwise.nil, eachWithPast_nil⟩
  jobs := List.Perm.refl _

end Simulation

end Chronoq.Bench
