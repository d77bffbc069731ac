import Chronoq.Foundations.Agenda
import Chronoq.Foundations.Resource
import Chronoq.Foundations.Transition
import Chronoq.Ranker.Values

/-! # `simulator.py`: jobs, schedulers and the discrete-event simulator

`Simulator.run` on the event loop of SimPy. The processes are generators, and what a generator still
needs when it is resumed is in the event that resumes it:

* `arrivalsInit`, `workerInit`: the start of a process, which is urgent.
* `arrivalTimeout`, `jobTimeout`: the two `env.timeout(...)`.
* `request`: the request of a worker process, granted; `release`: its release. A release frees the slot
  when it is made and grants the next request when its event is processed.
* `processEnd`: the end of a process, for which nobody waits.

Times are exact. A job is a value, where the source has an object: `waiting.remove(chosen)` drops the
first job that is equal to `chosen` in every field, so it is sure to be the chosen object only where the
job ids are distinct, and what is said of two equal jobs here is not said of the source. What `select` and `on_arrival` do with the scheduler's own state is arbitrary; they do not
change the jobs or lists they are given. An exception in a process ends the run.

`Handled` lists what an event can do, and `selections` is a history that nothing reads. -/

namespace Chronoq.Bench
open Foundations

set_option autoImplicit false

/-! ## Jobs and schedulers -/

structure Job where
  jobId : String
  taskType : String
  payloadSize : ℤ
  trueMs : ℚ
  arrivalMs : ℚ
  priority : ℤ := 0
  startMs : ℚ := 0
  endMs : ℚ := 0
  remainingMs : ℚ := trueMs
  deriving DecidableEq, Repr

/-- `BaseScheduler`, with a state of type `σ`. -/
structure BaseScheduler (σ : Type) where
  name : String
  select : σ → List Job → Except PyException (Job × σ)
  onArrival : ℚ → σ → List Job → Job → Bool × σ := fun _ state _ _ => (false, state)

/-- A scheduler as the simulator may expect it: `select` returns an element of the list it is given. -/
def BaseScheduler.Selects {σ : Type} (scheduler : BaseScheduler σ) : Prop :=
  ∀ state waiting, waiting ≠ [] →
    ∃ chosen ∈ waiting, ∃ state', scheduler.select state waiting = .ok (chosen, state')

/-- The constructor raises `ValueError` for fewer than one worker. -/
structure Simulator (σ : Type) where
  scheduler : BaseScheduler σ
  nWorkers : ℕ
  positive : 1 ≤ nWorkers

structure SimResult where
  schedulerName : String
  jobs : List Job

/-! ## State -/

inductive SimEvent
  | arrivalsInit (arrivals : List Job)
  | arrivalTimeout (job : Job) (arrivals : List Job)
  | workerInit (worker : ℕ)
  | request (worker : ℕ)
  | jobTimeout (worker : ℕ) (chosen : Job)
  | release (worker : ℕ)
  | processEnd
  deriving Repr

/-- A call of `select`. -/
structure Selection where
  time : ℚ
  waiting : List Job
  chosen : Job

structure Simulation (σ : Type) where
  agenda : Agenda ℚ SimEvent
  workers : Resource ℕ
  waiting : List Job
  running : List Job
  completed : List Job
  schedulerState : σ
  processes : ℕ
  selections : List Selection

/-- `URGENT` and `NORMAL`, the priorities of SimPy. -/
def urgent : ℕ := 0

def normal : ℕ := 1

namespace Simulation
variable {σ : Type}

def now (s : Simulation σ) : ℚ := s.agenda.now

def scheduleNow (s : Simulation σ) (priority : ℕ) (event : SimEvent) : Simulation σ :=
  { s with agenda := s.agenda.schedule s.agenda.now le_rfl priority event }

/-- `env.timeout(delay)` -/
def timeout (s : Simulation σ) (delay : ℚ) (h : 0 ≤ delay) (event : SimEvent) : Simulation σ :=
  { s with
    agenda := s.agenda.schedule (s.agenda.now + delay) (le_add_of_nonneg_right h) normal event }

/-! ## The arrival process -/

/-- From the head of the loop to the next `yield`. -/
def arrivalLoop (s : Simulation σ) : List Job → Simulation σ
  | [] => s.scheduleNow normal .processEnd
  | job :: arrivals =>
    s.timeout (max 0 (job.arrivalMs - s.now)) (le_max_left _ _) (.arrivalTimeout job arrivals)

/-- The rest of the loop, after the timeout. -/
def arrive (scheduler : BaseScheduler σ) (s : Simulation σ) (job : Job) : Simulation σ :=
  let waiting := s.waiting ++ [job]
  let schedulerState := match s.running.getLast? with
    | none => s.schedulerState
    | some last => (scheduler.onArrival s.now s.schedulerState waiting last).2
  { s with
    waiting := waiting
    schedulerState := schedulerState
    processes := s.processes + 1 }.scheduleNow urgent (.workerInit s.processes)

/-! ## Worker processes -/

/-- The resource after a try to grant a request, and the event of the granted request. -/
def grant (s : Simulation σ) (tried : Resource ℕ × Option ℕ) : Simulation σ :=
  let s := { s with workers := tried.1 }
  match tried.2 with
  | none => s
  | some worker => s.scheduleNow normal (.request worker)

/-- The chosen job is started. -/
def begin (s : Simulation σ) (worker : ℕ) (chosen : Job) (schedulerState : σ)
    (h : 0 ≤ chosen.trueMs) : Simulation σ :=
  let started := { chosen with startMs := s.now }
  let begun : Simulation σ := { s with
    waiting := s.waiting.erase chosen
    running := s.running ++ [started]
    schedulerState := schedulerState
    selections := s.selections ++ [⟨s.now, s.waiting, chosen⟩] }
  begun.timeout chosen.trueMs h (.jobTimeout worker started)

/-- The slot is acquired: `select`, `waiting.remove`, and a timeout. All three may raise. -/
def acquire (scheduler : BaseScheduler σ) (s : Simulation σ) (worker : ℕ) :
    Except PyException (Simulation σ) :=
  match scheduler.select s.schedulerState s.waiting with
  | .error exc => .error exc
  | .ok (chosen, schedulerState) =>
    if chosen ∈ s.waiting then
      if h : 0 ≤ chosen.trueMs then .ok (s.begin worker chosen schedulerState h)
      else .error (.raised "ValueError")
    else .error (.raised "ValueError")

/-- The job is done; the slot is released at the end of the `with` block. -/
def complete (s : Simulation σ) (worker : ℕ) (chosen : Job) : Simulation σ :=
  ({ s with
    running := s.running.erase chosen
    completed := s.completed ++ [{ chosen with endMs := s.now, remainingMs := 0 }]
    workers := s.workers.release worker }.scheduleNow normal (.release worker)).scheduleNow normal
      .processEnd

def handle (scheduler : BaseScheduler σ) (s : Simulation σ) :
    SimEvent → Except PyException (Simulation σ)
  | .arrivalsInit arrivals => .ok (s.arrivalLoop arrivals)
  | .arrivalTimeout job arrivals => .ok ((s.arrive scheduler job).arrivalLoop arrivals)
  | .workerInit worker => .ok (s.grant (s.workers.request worker))
  | .request worker => s.acquire scheduler worker
  | .jobTimeout worker chosen =>
    if chosen ∈ s.running then .ok (s.complete worker chosen) else .error (.raised "ValueError")
  | .release _ => .ok (s.grant s.workers.triggerPut)
  | .processEnd => .ok s

/-! ## The event loop -/

/-- `env.step()`; `none` if nothing is scheduled. -/
def step (scheduler : BaseScheduler σ) (s : Simulation σ) :
    Option (Except PyException (Simulation σ)) :=
  s.agenda.next.map fun taken =>
    handle scheduler { s with agenda := taken.2 } taken.1.event

/-- `env.run()`; `none` if the fuel does not suffice. -/
def runFor (scheduler : BaseScheduler σ) : ℕ → Simulation σ →
    Option (Except PyException (Simulation σ))
  | 0, _ => none
  | fuel + 1, s =>
    match s.step scheduler with
    | none => some (.ok s)
    | some (.error exc) => some (.error exc)
    | some (.ok s) => runFor scheduler fuel s

end Simulation

namespace Simulator
variable {σ : Type}

def arrivalOrder (jobs : List Job) : List Job :=
  jobs.insertionSort fun a b => a.arrivalMs ≤ b.arrivalMs

def initial (sim : Simulator σ) (schedulerState : σ) (jobs : List Job) : Simulation σ :=
  Simulation.scheduleNow
    { agenda := .start 0
      workers := .new sim.nWorkers
      waiting := []
      running := []
      completed := []
      schedulerState := schedulerState
      processes := 0
      selections := [] } urgent (.arrivalsInit (arrivalOrder jobs))

def run (sim : Simulator σ) (schedulerState : σ) (fuel : ℕ) (jobs : List Job) :
    Option (Except PyException SimResult) :=
  ((sim.initial schedulerState jobs).runFor sim.scheduler fuel).map fun ended =>
    ended.map fun s => { schedulerName := sim.scheduler.name, jobs := s.completed }

end Simulator

/-! ## What an event can do -/

namespace Simulation
variable {σ : Type}

/-- `Handled scheduler s event t`: the event, taken out of the agenda of `s`, makes `t` of it. -/
inductive Handled (scheduler : BaseScheduler σ) (s : Simulation σ) : SimEvent → Simulation σ → Prop
  | arrivals (arrivals : List Job) :
    Handled scheduler s (.arrivalsInit arrivals) (s.arrivalLoop arrivals)
  | arrived (job : Job) (arrivals : List Job) :
    Handled scheduler s (.arrivalTimeout job arrivals) ((s.arrive scheduler job).arrivalLoop arrivals)
  | asked (worker : ℕ) :
    Handled scheduler s (.workerInit worker) (s.grant (s.workers.request worker))
  | began (worker : ℕ) {chosen : Job} {schedulerState : σ}
    (hselect : scheduler.select s.schedulerState s.waiting = .ok (chosen, schedulerState))
    (hmem : chosen ∈ s.waiting) (h : 0 ≤ chosen.trueMs) :
    Handled scheduler s (.request worker) (s.begin worker chosen schedulerState h)
  | completed (worker : ℕ) {chosen : Job} (hmem : chosen ∈ s.running) :
    Handled scheduler s (.jobTimeout worker chosen) (s.complete worker chosen)
  | released (worker : ℕ) : Handled scheduler s (.release worker) (s.grant s.workers.triggerPut)
  | ended : Handled scheduler s .processEnd s

theorem handled_of_ok {scheduler : BaseScheduler σ} {s t : Simulation σ} {event : SimEvent}
    (h : s.handle scheduler event = .ok t) : Handled scheduler s event t := by
  cases event with
  | arrivalsInit arrivals =>
    cases h
    exact .arrivals arrivals
  | arrivalTimeout job arrivals =>
    cases h
    exact .arrived job arrivals
  | workerInit worker =>
    cases h
    exact .asked worker
  | request worker =>
    simp only [handle, acquire] at h
    split at h
    · cases h
    · next hselect =>
      split at h
      · split at h
        · next hmem hnonneg =>
          cases h
          exact .began worker hselect hmem hnonneg
        · cases h
      · cases h
  | jobTimeout worker chosen =>
    simp only [handle] at h
    split at h
    · next hmem =>
      cases h
      exact .completed worker hmem
    · cases h
  | release worker =>
    cases h
    exact .released worker
  | processEnd =>
    cases h
    exact .ended

/-- A step of the event loop takes the first event of the agenda. -/
abbrev Steps (scheduler : BaseScheduler σ) : Simulation σ → Unit → Simulation σ → Prop :=
  fun s _ t => s.step scheduler = some (.ok t)

theorem step_handled {scheduler : BaseScheduler σ} {s t : Simulation σ}
    (h : s.step scheduler = some (.ok t)) :
    ∃ e b, s.agenda.next = some (e, b) ∧ Handled scheduler { s with agenda := b } e.event t := by
  obtain ⟨⟨e, b⟩, hnext, hhandle⟩ := Option.map_eq_some_iff.mp h
  exact ⟨e, b, hnext, handled_of_ok hhandle⟩

/-! ## What the arrival process and a try leave alone -/

section Unchanged
variable (s : Simulation σ) (arrivals : List Job) (tried : Resource ℕ × Option ℕ)

@[simp] theorem arrivalLoop_now : (s.arrivalLoop arrivals).now = s.now := by cases arrivals <;> rfl

@[simp] theorem arrivalLoop_workers : (s.arrivalLoop arrivals).workers = s.workers := by
  cases arrivals <;> rfl

@[simp] theorem arrivalLoop_waiting : (s.arrivalLoop arrivals).waiting = s.waiting := by
  cases arrivals <;> rfl

@[simp] theorem arrivalLoop_running : (s.arrivalLoop arrivals).running = s.running := by
  cases arrivals <;> rfl

@[simp] theorem arrivalLoop_completed : (s.arrivalLoop arrivals).completed = s.completed := by
  cases arrivals <;> rfl

@[simp] theorem arrivalLoop_selections : (s.arrivalLoop arrivals).selections = s.selections := by
  cases arrivals <;> rfl

@[simp] theorem grant_now : (s.grant tried).now = s.now := by
  obtain ⟨r, _ | worker⟩ := tried <;> rfl

@[simp] theorem grant_workers : (s.grant tried).workers = tried.1 := by
  obtain ⟨r, _ | worker⟩ := tried <;> rfl

@[simp] theorem grant_waiting : (s.grant tried).waiting = s.waiting := by
  obtain ⟨r, _ | worker⟩ := tried <;> rfl

@[simp] theorem grant_running : (s.grant tried).running = s.running := by
  obtain ⟨r, _ | worker⟩ := tried <;> rfl

@[simp] theorem grant_completed : (s.grant tried).completed = s.completed := by
  obtain ⟨r, _ | worker⟩ := tried <;> rfl

@[simp] theorem grant_selections : (s.grant tried).selections = s.selections := by
  obtain ⟨r, _ | worker⟩ := tried <;> rfl

end Unchanged

/-! ## What an event adds to the agenda -/

/-- The event on which `_arrival_process` waits next. -/
def arrivalEvent : List Job → SimEvent
  | [] => .processEnd
  | job :: arrivals => .arrivalTimeout job arrivals

section Agenda
variable {M : Type*} [AddCommMonoid M] (f : SimEvent → M) (s : Simulation σ)

@[simp] theorem total_scheduleNow (priority : ℕ) (event : SimEvent) :
    (s.scheduleNow priority event).agenda.total f = f event + s.agenda.total f := by
  rw [scheduleNow, Agenda.total_schedule]

@[simp] theorem total_timeout (delay : ℚ) (h : 0 ≤ delay) (event : SimEvent) :
    (s.timeout delay h event).agenda.total f = f event + s.agenda.total f := by
  rw [timeout, Agenda.total_schedule]

@[simp] theorem total_arrivalLoop (arrivals : List Job) :
    (s.arrivalLoop arrivals).agenda.total f = f (arrivalEvent arrivals) + s.agenda.total f := by
  cases arrivals with
  | nil => rw [arrivalLoop, total_scheduleNow, arrivalEvent]
  | cons job arrivals => rw [arrivalLoop, total_timeout, arrivalEvent]

@[simp] theorem total_arrive (scheduler : BaseScheduler σ) (job : Job) :
    (s.arrive scheduler job).agenda.total f = f (.workerInit s.processes) + s.agenda.total f :=
  total_scheduleNow f _ _ _

@[simp] theorem total_begin (worker : ℕ) (chosen : Job) (schedulerState : σ)
    (h : 0 ≤ chosen.trueMs) :
    (s.begin worker chosen schedulerState h).agenda.total f =
      f (.jobTimeout worker { chosen with startMs := s.now }) + s.agenda.total f := by
  rw [begin, total_timeout]

@[simp] theorem total_complete (worker : ℕ) (chosen : Job) :
    (s.complete worker chosen).agenda.total f =
      f .processEnd + (f (.release worker) + s.agenda.total f) := by
  rw [complete, total_scheduleNow, total_scheduleNow]

end Agenda

end Simulation

end Chronoq.Bench
