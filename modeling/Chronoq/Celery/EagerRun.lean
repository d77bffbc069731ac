import Chronoq.Celery.Producer
import Chronoq.Foundations.LastWrite

/-! # `toggle_demo.py`: a batch on an eager app

With `task_always_eager` an `apply_fn` executes its task at once, and the handler of the task's success
dispatches the next one before it returns. So a single `dispatch_next` nests the whole batch, and `depth` is
how deep the interpreter lets it go.

How Celery executes a task is a parameter, and `EagerEnv.Eager` what the demo relies on: the handler before
the function, that of success behind it, no exception out of a handler, and that of the function raised out
of the `apply_fn`. `Chained` says how far such a nest gets: `dispatchNext_chained`, by induction on the
depth. -/

namespace Chronoq.Celery
open Foundations Ranker

set_option autoImplicit false

/-- `executed` are the tasks whose functions have been called, `refused` those whose completion could not
be recorded, and `ticks` counts the clock readings. -/
structure EagerLog where
  completeTimes : List (String × ℚ)
  ticks : ℕ
  executed : List ProducerJob
  refused : List ProducerJob

structure EagerRun (Score Ranker : Type) extends EagerLog where
  scheduler : LearnedScheduler Score ProducerJob Ranker

/-- What is called when a task is executed: its function and the handlers of its signals. -/
structure TaskCalls (State : Type) where
  prerun : State → State
  body : State → State × Except PyException Unit
  success : State → State × Except PyException Unit
  failure : State → State

/-- `body` is the function of the task, `monotonic` are the readings of the clock in turn, and `execute` is
how the app executes a task. -/
structure EagerEnv (Score Ranker : Type) where
  predict : Ranker → TaskCandidate → QueueContext → Except PyException Score
  record : Ranker → RecordCall → Ranker × Except PyException Unit
  body : ProducerJob → Except PyException Unit
  monotonic : ℕ → ℚ
  sendsFailure : Bool
  execute : TaskCalls (EagerRun Score Ranker) → EagerRun Score Ranker →
    EagerRun Score Ranker × Except PyException Unit

/-- The app executes a task eagerly and propagates what its function raises; whether the signal of the
failure goes out before that is `sendsFailure`. What a handler raises is swallowed. -/
structure EagerEnv.Eager {Score Ranker : Type} (env : EagerEnv Score Ranker) : Prop where
  returns : ∀ calls r, (calls.body (calls.prerun r)).2 = .ok () →
    env.execute calls r = ((calls.success (calls.body (calls.prerun r)).1).1, .ok ())
  raises : ∀ calls r exc, (calls.body (calls.prerun r)).2 = .error exc →
    env.execute calls r =
      (if env.sendsFailure then calls.failure (calls.body (calls.prerun r)).1
        else (calls.body (calls.prerun r)).1, .error exc)

variable {Score Ranker : Type}

namespace EagerRun

/-! ## The handlers of `_SignalHandlers` -/

def onTaskPrerun (env : EagerEnv Score Ranker) (r : EagerRun Score Ranker) (job : ProducerJob) :
    EagerRun Score Ranker :=
  { r with
    scheduler := r.scheduler.recordStart job.taskId job.taskType job.payloadSize
      (env.monotonic r.ticks * 1000)
    ticks := r.ticks + 1 }

/-- `on_task_success` before it dispatches: the two clock readings are that of the handler and that of
`record_completion`. -/
def recordCompletion (env : EagerEnv Score Ranker) (r : EagerRun Score Ranker) (job : ProducerJob) :
    EagerRun Score Ranker × Except PyException (Option ℚ) :=
  let done := r.scheduler.recordCompletion env.record job.taskId job.taskType job.payloadSize
    (env.monotonic (r.ticks + 1) * 1000)
  ({ r with
      scheduler := done.scheduler
      completeTimes := setItem job.taskId (env.monotonic r.ticks) r.completeTimes
      ticks := r.ticks + 2
      refused := if done.outcome.isOk then r.refused else r.refused ++ [job] }, done.outcome)

def onTaskSuccess (env : EagerEnv Score Ranker)
    (dispatchNext : EagerRun Score Ranker → EagerRun Score Ranker × Except PyException Bool)
    (r : EagerRun Score Ranker) (job : ProducerJob) : EagerRun Score Ranker × Except PyException Unit :=
  match r.recordCompletion env job with
  | (r, .error exc) => (r, .error exc)
  | (r, .ok _) =>
    if r.scheduler.mode = .active then
      let (r, result) := dispatchNext r
      (r, result.map fun _ => ())
    else (r, .ok ())

def onTaskFailure (r : EagerRun Score Ranker) (job : ProducerJob) : EagerRun Score Ranker :=
  { r with scheduler := r.scheduler.cleanupRegistry job.taskId }

/-! ## Eager execution -/

section Applying
variable [LinearOrder Score]

def dispatchNext
    (apply : ProducerJob → EagerRun Score Ranker → EagerRun Score Ranker × Except PyException Unit)
    (r : EagerRun Score Ranker) : EagerRun Score Ranker × Except PyException Bool :=
  match r.scheduler.pop with
  | none => (r, .ok false)
  | some (e, scheduler) =>
    let (r, result) := apply e.applyFn { r with scheduler }
    (r, result.map fun _ => true)

def calls (env : EagerEnv Score Ranker)
    (dispatchNext : EagerRun Score Ranker → EagerRun Score Ranker × Except PyException Bool)
    (job : ProducerJob) : TaskCalls (EagerRun Score Ranker) where
  prerun r := r.onTaskPrerun env job
  body r := ({ r with executed := r.executed ++ [job] }, env.body job)
  success r := r.onTaskSuccess env dispatchNext job
  failure r := r.onTaskFailure job

/-- `apply_async` of a task. -/
def apply (env : EagerEnv Score Ranker) :
    ℕ → ProducerJob → EagerRun Score Ranker → EagerRun Score Ranker × Except PyException Unit
  | 0, _, r => (r, .error (.raised "RecursionError"))
  | depth + 1, job, r => env.execute (calls env (dispatchNext (apply env depth)) job) r

variable [Zero Score]

/-- `scheduler.submit` of a job with its uuid. -/
def submit (env : EagerEnv Score Ranker) (depth : ℕ) (r : EagerRun Score Ranker) (job : ProducerJob) :
    EagerRun Score Ranker × Except PyException Unit :=
  let ended := r.scheduler.submitIn env.predict
    (fun job sw =>
      let (r, result) := apply env depth job ⟨sw.2, sw.1⟩
      ((r.scheduler, r.toEagerLog), result))
    r.toEagerLog "" job.taskType job.payloadSize job (some job.taskId)
  (⟨ended.1.2, ended.1.1⟩, ended.2.map fun _ => ())

def submitAll (env : EagerEnv Score Ranker) (depth : ℕ) (r : EagerRun Score Ranker) :
    List ProducerJob → EagerRun Score Ranker × Except PyException Unit
  | [] => (r, .ok ())
  | job :: jobs =>
    match r.submit env depth job with
    | (r, .error exc) => (r, .error exc)
    | (r, .ok _) => submitAll env depth r jobs

/-- The times from the start of the batch on, of the tasks that were completed. -/
def jctsMs (t0 : ℚ) (r : EagerRun Score Ranker) (jobs : List ProducerJob) : List ℚ :=
  jobs.filterMap fun job => (r.completeTimes.lookup job.taskId).map fun t => (t - t0) * 1000

/-- `_run_mode`, with what it returns or raises. -/
def runMode (env : EagerEnv Score Ranker) (depth : ℕ) (mode : SchedulerMode) (ranker : Ranker)
    (stats : TypeStatsTracker) (jobs : List ProducerJob) :
    EagerRun Score Ranker × Except PyException (List ℚ) :=
  let t0 := env.monotonic 0
  match submitAll env depth ⟨⟨[], 1, [], []⟩, .new mode ranker stats⟩ jobs with
  | (r, .error exc) => (r, .error exc)
  | (r, .ok _) =>
    if mode = .active then
      match r.dispatchNext (apply env depth) with
      | (r, .error exc) => (r, .error exc)
      | (r, .ok _) => (r, .ok (r.jctsMs t0 jobs))
    else (r, .ok (r.jctsMs t0 jobs))

end Applying

end EagerRun

/-! ## One task -/

/-- The scoring of the batch, and a broker that takes every task. -/
def EagerEnv.producer (env : EagerEnv Score Ranker) : ProducerEnv Score Ranker where
  predict := env.predict
  sendTask _ _ := .ok ()
  uuid := ""

/-- The task raises, and no handler hears of it. -/
def EagerEnv.leaks (env : EagerEnv Score Ranker) (job : ProducerJob) : Bool :=
  !env.sendsFailure && !(env.body job).isOk

namespace EagerRun
variable {env : EagerEnv Score Ranker} {r r' rest : EagerRun Score Ranker} {job : ProducerJob}
  {order : List ProducerJob} {k : ℕ}

theorem mem_registry_recordStart {ApplyFn : Type} (s : LearnedScheduler Score ApplyFn Ranker)
    (taskId taskType id : String) (payloadSize : ℤ) (nowMs : ℚ) :
    id ∈ (s.recordStart taskId taskType payloadSize nowMs).registry ↔
      id = taskId ∨ id ∈ s.registry := by
  rw [← Finmap.lookup_isSome, recordStart_lookup, ← Finmap.lookup_isSome]
  by_cases h : id = taskId
  · simp [h]
  · simp [h]

/-- The task has been begun, and the registry has forgotten it unless it leaks. -/
structure Began (env : EagerEnv Score Ranker) (job : ProducerJob) (r r' : EagerRun Score Ranker) :
    Prop where
  mode : r'.scheduler.mode = r.scheduler.mode
  heap : r'.scheduler.heap = r.scheduler.heap
  registered : ∀ id, id ∈ r'.scheduler.registry ↔
    id = job.taskId ∧ env.leaks job ∨ id ≠ job.taskId ∧ id ∈ r.scheduler.registry
  executed : r'.executed = r.executed ++ [job]

/-- The run when the function of the task is called. -/
def begin (env : EagerEnv Score Ranker) (r : EagerRun Score Ranker) (job : ProducerJob) :
    EagerRun Score Ranker :=
  { r.onTaskPrerun env job with executed := r.executed ++ [job] }

theorem mem_begin (id : String) : id ∈ (r.begin env job).scheduler.registry ↔
    id = job.taskId ∨ id ∈ r.scheduler.registry :=
  mem_registry_recordStart r.scheduler _ _ _ _ _

theorem mem_erase_begin (hleaks : env.leaks job = false) (id : String) :
    id ∈ (r.begin env job).scheduler.registry.erase job.taskId ↔
      id = job.taskId ∧ env.leaks job ∨ id ≠ job.taskId ∧ id ∈ r.scheduler.registry := by
  rw [Finmap.mem_erase, hleaks]
  simp only [Bool.false_eq_true, and_false, false_or]
  refine and_congr_right fun hne => ?_
  exact (mem_begin id).trans (or_iff_right hne)

theorem began_failure {exc : PyException} (hbody : env.body job = .error exc) :
    Began env job r (if env.sendsFailure then (r.begin env job).onTaskFailure job else r.begin env job) := by
  have hmode : (r.begin env job).scheduler.mode = r.scheduler.mode :=
    (recordStart_frame r.scheduler _ _ _ _).1
  have hheap : (r.begin env job).scheduler.heap = r.scheduler.heap :=
    (recordStart_frame r.scheduler _ _ _ _).2.1
  cases hsends : env.sendsFailure with
  | true =>
    have hleaks : env.leaks job = false := by
      rw [EagerEnv.leaks, hsends]
      rfl
    exact ⟨hmode, hheap, mem_erase_begin hleaks, rfl⟩
  | false =>
    have hleaks : env.leaks job = true := by
      rw [EagerEnv.leaks, hsends, hbody]
      rfl
    refine ⟨hmode, hheap, fun id => (mem_begin id).trans ?_, rfl⟩
    by_cases hid : id = job.taskId
    · simp [hid, hleaks]
    · simp [hid]

theorem leaks_of_ok (hbody : env.body job = .ok ()) : env.leaks job = false := by
  rw [EagerEnv.leaks, hbody]
  exact Bool.and_false _

/-- The task is refused exactly if its completion cannot be recorded. -/
theorem refused_recordCompletion (env : EagerEnv Score Ranker) (r : EagerRun Score Ranker)
    (job : ProducerJob) :
    ((∃ actual, (r.recordCompletion env job).2 = .ok actual) ∧
        (r.recordCompletion env job).1.refused = r.refused) ∨
      ((∃ exc, (r.recordCompletion env job).2 = .error exc) ∧
        (r.recordCompletion env job).1.refused = r.refused ++ [job]) := by
  rw [recordCompletion]
  dsimp only
  cases (r.scheduler.recordCompletion env.record job.taskId job.taskType job.payloadSize
      (env.monotonic (r.ticks + 1) * 1000)).outcome with
  | error exc => exact .inr ⟨⟨exc, rfl⟩, rfl⟩
  | ok actual => exact .inl ⟨⟨actual, rfl⟩, rfl⟩

theorem began_completion (hbody : env.body job = .ok ()) :
    Began env job r ((r.begin env job).recordCompletion env job).1 := by
  obtain ⟨stats, ranker, -, hscheduler⟩ := recordCompletion_scheduler env.record
    (r.begin env job).scheduler job.taskId job.taskType job.payloadSize
    (env.monotonic ((r.begin env job).ticks + 1) * 1000)
  refine ⟨?_, ?_, fun id => ?_, rfl⟩
  · exact (congrArg LearnedScheduler.mode hscheduler).trans (recordStart_frame r.scheduler _ _ _ _).1
  · exact (congrArg LearnedScheduler.heap hscheduler).trans (recordStart_frame r.scheduler _ _ _ _).2.1
  · have hregistry := congrArg LearnedScheduler.registry hscheduler
    show id ∈ ((r.begin env job).scheduler.recordCompletion _ _ _ _ _).scheduler.registry ↔ _
    rw [hregistry]
    exact mem_erase_begin (leaks_of_ok hbody) id

theorem keys_recordCompletion (env : EagerEnv Score Ranker)
    (hnew : job.taskId ∉ r.completeTimes.map Prod.fst) :
    (r.recordCompletion env job).1.completeTimes.map Prod.fst =
      r.completeTimes.map Prod.fst ++ [job.taskId] := by
  show (setItem job.taskId _ r.completeTimes).map Prod.fst = _
  rw [keys_setItem, if_neg hnew]

theorem filter_isOk_of_returned {order : List ProducerJob} (h : ∀ job ∈ order, env.body job = .ok ()) :
    order.filter (fun job => (env.body job).isOk) = order :=
  List.filter_eq_self.mpr fun job hmem => by
    rw [h job hmem]
    rfl

/-! ## The chain of dispatches -/

/-- From `r` on the tasks of `order` have been executed in turn up to the first `k`, and the others are
held: the last one has failed, or its completion could not be recorded, unless none is left. -/
structure Chained [LinearOrder Score] (env : EagerEnv Score Ranker) (order : List ProducerJob) (k : ℕ)
    (r r' : EagerRun Score Ranker) : Prop where
  bound : k ≤ order.length
  started : order ≠ [] → 1 ≤ k
  executed : r'.executed = r.executed ++ order.take k
  held : (sortBy HeapEntry.key r'.scheduler.heap).map HeapEntry.applyFn = order.drop k
  registered : ∀ id, id ∈ r'.scheduler.registry ↔
    id ∈ ((order.take k).filter env.leaks ++ order.drop k).map ProducerJob.taskId
  completed : r'.completeTimes.map Prod.fst = r.completeTimes.map Prod.fst ++
    ((order.take k).filter fun job => (env.body job).isOk).map ProducerJob.taskId
  returned : ∀ job ∈ order.take (k - 1), env.body job = .ok ()
  refused : r'.refused = r.refused ∨
    ∃ job, order[k - 1]? = some job ∧ r'.refused = r.refused ++ [job]
  stopped : k < order.length → ∃ job, order[k - 1]? = some job ∧
    ((∃ exc, env.body job = .error exc) ∨ r'.refused = r.refused ++ [job])

/-- What is held, in the order of its scores. -/
structure Holding [LinearOrder Score] (order : List ProducerJob) (r : EagerRun Score Ranker) : Prop where
  mode : r.scheduler.mode = .active
  held : (sortBy HeapEntry.key r.scheduler.heap).map HeapEntry.applyFn = order
  registered : ∀ id, id ∈ r.scheduler.registry ↔ id ∈ order.map ProducerJob.taskId
  distinct : (order.map ProducerJob.taskId).Nodup
  fresh : ∀ id ∈ order.map ProducerJob.taskId, id ∉ r.completeTimes.map Prod.fst

/-- The first task that was held is taken out of the heap, and nothing else has changed. -/
structure Popped [LinearOrder Score] (order : List ProducerJob) (r r' : EagerRun Score Ranker) : Prop where
  mode : r'.scheduler.mode = .active
  held : (sortBy HeapEntry.key r'.scheduler.heap).map HeapEntry.applyFn = order
  registry : r'.scheduler.registry = r.scheduler.registry
  executed : r'.executed = r.executed
  completed : r'.completeTimes = r.completeTimes
  refused : r'.refused = r.refused

section Chains
variable [LinearOrder Score] {m : EagerRun Score Ranker}

theorem dispatchNext_nil (h : Holding [] r)
    (apply : ProducerJob → EagerRun Score Ranker → EagerRun Score Ranker × Except PyException Unit) :
    r.dispatchNext apply = (r, .ok false) := by
  have hnil : r.scheduler.heap = [] := by
    have hlength := (sortBy_perm HeapEntry.key r.scheduler.heap).length_eq
    rw [← List.length_map HeapEntry.applyFn, h.held] at hlength
    exact List.length_eq_zero_iff.mp hlength.symm
  rw [dispatchNext, LearnedScheduler.pop, hnil]
  rfl

theorem dispatchNext_cons (h : Holding (job :: order) r)
    (apply : ProducerJob → EagerRun Score Ranker → EagerRun Score Ranker × Except PyException Unit) :
    ∃ r', Popped order r r' ∧
      r.dispatchNext apply = ((apply job r').1, (apply job r').2.map fun _ => true) := by
  have hheld := h.held
  cases hleast : extractLeast HeapEntry.key r.scheduler.heap with
  | none =>
    rw [(extractLeast_eq_none_iff _).mp hleast] at hheld
    cases hheld
  | some popped =>
    obtain ⟨e, heap⟩ := popped
    rw [sortBy_extractLeast HeapEntry.key hleast, List.map_cons, List.cons.injEq] at hheld
    obtain ⟨rfl, hheld⟩ := hheld
    refine ⟨{ r with scheduler := { r.scheduler with heap := heap } },
      ⟨h.mode, hheld, rfl, rfl, rfl, rfl⟩, ?_⟩
    rw [dispatchNext, LearnedScheduler.pop, hleast]
    rfl

/-- What the registry still knows once the task has been begun. -/
theorem registered_of_began (h : Holding (job :: order) rest) (hpopped : Popped order rest r)
    (hbegan : Began env job r r') (id : String) : id ∈ r'.scheduler.registry ↔
      id ∈ ([job].filter env.leaks ++ order).map ProducerJob.taskId := by
  obtain ⟨hnotMem, -⟩ := List.nodup_cons.mp h.distinct
  have hold : id ≠ job.taskId ∧ id ∈ r.scheduler.registry ↔ id ∈ order.map ProducerJob.taskId := by
    rw [hpopped.registry, h.registered, List.map_cons, List.mem_cons]
    constructor
    · rintro ⟨hne, heq | hmem⟩
      · exact absurd heq hne
      · exact hmem
    · intro hmem
      refine ⟨?_, .inr hmem⟩
      rintro rfl
      exact hnotMem hmem
  rw [hbegan.registered, hold, List.map_append, List.mem_append]
  refine or_congr_left ?_
  cases hleaks : env.leaks job with
  | true => simp [hleaks]
  | false => simp [hleaks]

/-- The chain ends with the task. -/
theorem chained_one (h : Holding (job :: order) rest) (hpopped : Popped order rest r)
    (hbegan : Began env job r r')
    (hcompleted : r'.completeTimes.map Prod.fst = rest.completeTimes.map Prod.fst ++
      ([job].filter fun job => (env.body job).isOk).map ProducerJob.taskId)
    (hstopped : ((∃ exc, env.body job = .error exc) ∧ r'.refused = rest.refused) ∨
      r'.refused = rest.refused ++ [job]) :
    Chained env (job :: order) 1 rest r' := by
  refine ⟨by simp, fun _ => le_rfl, ?_, ?_, registered_of_began h hpopped hbegan, hcompleted,
    by simp, ?_, fun _ => ⟨job, rfl, hstopped.imp_left And.left⟩⟩
  · rw [hbegan.executed, hpopped.executed]
    rfl
  · rw [hbegan.heap]
    exact hpopped.held
  · exact hstopped.imp And.right fun hrefused => ⟨job, rfl, hrefused⟩

/-- Behind a task that has returned the other ones are held. -/
theorem holding_of_began (h : Holding (job :: order) rest) (hpopped : Popped order rest r)
    (hbegan : Began env job r m)
    (hbody : env.body job = .ok ())
    (hkeys : m.completeTimes.map Prod.fst = rest.completeTimes.map Prod.fst ++ [job.taskId]) :
    Holding order m := by
  obtain ⟨hnotMem, hnodup⟩ := List.nodup_cons.mp h.distinct
  refine ⟨hbegan.mode.trans hpopped.mode, ?_, fun id => ?_, hnodup, ?_⟩
  · rw [hbegan.heap]
    exact hpopped.held
  · have hregistered := registered_of_began h hpopped hbegan id
    rw [List.filter_cons, leaks_of_ok hbody] at hregistered
    exact hregistered
  · intro id hmem
    rw [hkeys, List.mem_append, List.mem_singleton, not_or]
    refine ⟨h.fresh id (List.mem_cons_of_mem _ hmem), ?_⟩
    rintro rfl
    exact hnotMem hmem

/-- The chain goes on behind a task that has returned. -/
theorem chained_cons (hbody : env.body job = .ok ()) (hexecuted : m.executed = r.executed ++ [job])
    (hcompleted : m.completeTimes.map Prod.fst = r.completeTimes.map Prod.fst ++ [job.taskId])
    (hrefused : m.refused = r.refused) (h : Chained env order k m r') : Chained env (job :: order) (k + 1) r r' := by
  have hok : (env.body job).isOk = true := by
    rw [hbody]
    rfl
  have hlast : ∀ job', order[k - 1]? = some job' → (job :: order)[k + 1 - 1]? = some job' := by
    intro job' hget
    have hne : order ≠ [] := by
      rintro rfl
      cases hget
    obtain ⟨k, rfl⟩ := Nat.exists_eq_add_of_le' (h.started hne)
    exact hget
  refine ⟨Nat.succ_le_succ h.bound, fun _ => Nat.le_add_left 1 k, ?_, h.held, fun id => ?_, ?_, ?_, ?_,
    ?_⟩
  · rw [h.executed, hexecuted, List.append_assoc]
    rfl
  · rw [h.registered, List.take_succ_cons, List.filter_cons, leaks_of_ok hbody]
    rfl
  · rw [h.completed, hcompleted, List.append_assoc, List.take_succ_cons, List.filter_cons, if_pos hok]
    rfl
  · rw [Nat.add_sub_cancel]
    intro job' hmem
    cases k with
    | zero => cases hmem
    | succ k =>
      rcases List.mem_cons.mp hmem with rfl | hmem
      · exact hbody
      · exact h.returned job' hmem
  · rw [← hrefused]
    exact h.refused.imp_right fun ⟨job', hget, heq⟩ => ⟨job', hlast job' hget, heq⟩
  · intro hlt
    obtain ⟨job', hget, hstopped⟩ := h.stopped (Nat.lt_of_succ_lt_succ hlt)
    rw [← hrefused]
    exact ⟨job', hlast job' hget, hstopped⟩

theorem apply_returns (happ : env.Eager) (hbody : env.body job = .ok ()) (depth : ℕ) :
    apply env (depth + 1) job r =
      (((r.begin env job).onTaskSuccess env (dispatchNext (apply env depth)) job).1, .ok ()) :=
  happ.returns (calls env (dispatchNext (apply env depth)) job) r hbody

theorem apply_raises (happ : env.Eager) {exc : PyException} (hbody : env.body job = .error exc)
    (depth : ℕ) : apply env (depth + 1) job r =
      (if env.sendsFailure then (r.begin env job).onTaskFailure job else r.begin env job, .error exc) :=
  happ.raises (calls env (dispatchNext (apply env depth)) job) r exc hbody

/-- A task that returns, and the chain behind it. -/
theorem onTaskSuccess_chained (h : Holding (job :: order) rest) (hpopped : Popped order rest r)
    (hbody : env.body job = .ok ())
    {dispatchNext : EagerRun Score Ranker → EagerRun Score Ranker × Except PyException Bool}
    (hnext : ∀ m, Holding order m → ∃ k, Chained env order k m (dispatchNext m).1) :
    ∃ k, Chained env (job :: order) k rest
      ((r.begin env job).onTaskSuccess env dispatchNext job).1 := by
  have hok : (env.body job).isOk = true := by
    rw [hbody]
    rfl
  have hnew : job.taskId ∉ (r.begin env job).completeTimes.map Prod.fst := by
    show job.taskId ∉ r.completeTimes.map Prod.fst
    rw [hpopped.completed]
    exact h.fresh _ (List.mem_cons_self ..)
  have hkeys := keys_recordCompletion env hnew
  have hbefore : (r.begin env job).completeTimes = rest.completeTimes := hpopped.completed
  rw [hbefore] at hkeys
  have hbegan : Began env job r ((r.begin env job).recordCompletion env job).1 := began_completion hbody
  have hrefused := refused_recordCompletion env (r.begin env job) job
  have hearlier : (r.begin env job).refused = rest.refused := hpopped.refused
  rw [hearlier] at hrefused
  rw [onTaskSuccess]
  generalize (r.begin env job).recordCompletion env job = done at hkeys hbegan hrefused ⊢
  obtain ⟨m, outcome⟩ := done
  rcases hrefused with ⟨⟨actual, rfl⟩, hrefused⟩ | ⟨⟨exc, rfl⟩, hrefused⟩
  · dsimp only at hkeys hbegan hrefused ⊢
    rw [if_pos (hbegan.mode.trans hpopped.mode)]
    obtain ⟨k, hchained⟩ := hnext m (holding_of_began h hpopped hbegan hbody hkeys)
    refine ⟨k + 1, chained_cons hbody ?_ hkeys hrefused hchained⟩
    rw [hbegan.executed, hpopped.executed]
  · refine ⟨1, chained_one h hpopped hbegan ?_ (.inr hrefused)⟩
    rw [List.filter_cons, hok]
    exact hkeys

/-- The nest of dispatches, by induction on what is held. -/
theorem dispatchNext_chained (happ : env.Eager) (h : Holding order r)
    {depth : ℕ} (hdepth : order.length ≤ depth) :
    (∃ k, Chained env order k r (r.dispatchNext (apply env depth)).1) ∧
      ∀ job, order.head? = some job →
        (r.dispatchNext (apply env depth)).2 = (env.body job).map fun _ => true := by
  induction order generalizing r depth with
  | nil =>
    rw [dispatchNext_nil h]
    refine ⟨⟨0, le_rfl, fun hne => absurd rfl hne, (List.append_nil _).symm, h.held, h.registered,
      (List.append_nil _).symm, ?_, .inl rfl, ?_⟩, ?_⟩
    · intro job hmem
      cases hmem
    · intro hlt
      cases hlt
    · intro job hhead
      cases hhead
  | cons job order ih =>
    rw [List.length_cons] at hdepth
    obtain ⟨depth, rfl⟩ : ∃ d, depth = d + 1 := Nat.exists_eq_add_of_le' (by omega)
    obtain ⟨r', hpopped, hdispatch⟩ := dispatchNext_cons h (apply env (depth + 1))
    rw [hdispatch]
    cases hbody : env.body job with
    | error exc =>
      rw [apply_raises happ hbody]
      have hfailed : (env.body job).isOk = false := by
        rw [hbody]
        rfl
      have hrefused : (if env.sendsFailure then (r'.begin env job).onTaskFailure job
          else r'.begin env job).refused = r.refused := by
        cases env.sendsFailure with
        | true => exact hpopped.refused
        | false => exact hpopped.refused
      refine ⟨⟨1, chained_one h hpopped (began_failure hbody) ?_ (.inl ⟨⟨exc, hbody⟩, hrefused⟩)⟩, ?_⟩
      · have hkeys : r'.completeTimes.map Prod.fst = r.completeTimes.map Prod.fst ++ [] := by
          rw [hpopped.completed, List.append_nil]
        rw [List.filter_cons, hfailed]
        cases env.sendsFailure with
        | true => exact hkeys
        | false => exact hkeys
      · intro job' hhead
        cases hhead
        rw [hbody]
    | ok value =>
      rw [apply_returns happ hbody]
      refine ⟨onTaskSuccess_chained h hpopped hbody fun m hm => (ih hm (by omega)).1, ?_⟩
      intro job' hhead
      cases hhead
      rw [hbody]

theorem dispatchNext_ok (happ : env.Eager) (h : Holding order r) {depth : ℕ} (hdepth : order.length ≤ depth)
    (hreturns : ∀ job ∈ order, env.body job = .ok ()) :
    ∃ dispatched, (r.dispatchNext (apply env depth)).2 = .ok dispatched := by
  cases order with
  | nil => exact ⟨false, by rw [dispatchNext_nil h]⟩
  | cons job order =>
    refine ⟨true, ((dispatchNext_chained happ h hdepth).2 job rfl).trans ?_⟩
    rw [hreturns job List.mem_cons_self]
    rfl

/-- When no task raises or is refused, the chain goes through to its end. -/
theorem Chained.all (h : Chained env order k r r') (hrefused : r'.refused = r.refused)
    (hreturns : ∀ job ∈ order, env.body job = .ok ()) : k = order.length := by
  by_contra hne
  obtain ⟨job, hget, ⟨exc, hexc⟩ | hlast⟩ := h.stopped (lt_of_le_of_ne h.bound hne)
  · rw [hreturns job (List.mem_of_getElem? hget)] at hexc
    cases hexc
  · rw [hrefused] at hlast
    have hlength := congrArg List.length hlast
    rw [List.length_append, List.length_singleton] at hlength
    omega

/-- Then nothing is held and nothing registered any more. -/
theorem Chained.complete (h : Chained env order k r r') (hrefused : r'.refused = r.refused)
    (hreturns : ∀ job ∈ order, env.body job = .ok ()) :
    r'.executed = r.executed ++ order ∧ r'.scheduler.heap = [] ∧ r'.scheduler.registry = ∅ ∧
      r'.completeTimes.map Prod.fst = r.completeTimes.map Prod.fst ++ order.map ProducerJob.taskId := by
  obtain rfl := h.all hrefused hreturns
  have hleaks : order.filter env.leaks = [] :=
    List.filter_eq_nil_iff.mpr fun job hmem => by
      rw [leaks_of_ok (hreturns job hmem)]
      exact Bool.false_ne_true
  have hheld := h.held
  have hregistered := h.registered
  have hcompleted := h.completed
  rw [List.drop_length, List.map_eq_nil_iff] at hheld
  rw [List.take_length, List.drop_length, hleaks] at hregistered
  rw [List.take_length, filter_isOk_of_returned hreturns] at hcompleted
  refine ⟨h.executed.trans (by rw [List.take_length]), ?_, ?_, hcompleted⟩
  · have hlength := (sortBy_perm HeapEntry.key r'.scheduler.heap).length_eq
    rw [hheld] at hlength
    exact List.length_eq_zero_iff.mp hlength.symm
  · apply Finmap.ext_lookup
    intro id
    rw [Finmap.lookup_empty, Finmap.lookup_eq_none, hregistered]
    exact List.not_mem_nil

end Chains

/-! ## Submitting a batch -/

section Batches
variable [LinearOrder Score] [Zero Score] {jobs : List ProducerJob} {depth : ℕ}

/-- In active mode a submission does what that of the producer does. -/
theorem submit_eq_producer (depth : ℕ) (hmode : r.scheduler.mode = .active) (hid : job.taskId ≠ "") :
    ∃ scheduler raised,
      Producer.submit env.producer ⟨r.scheduler, []⟩ job = (⟨scheduler, []⟩, raised) ∧
      r.submit env depth job = ({ r with scheduler }, raised.elim (.ok ()) .error) ∧
      scheduler.mode = .active := by
  rw [Producer.submit, submit, submitIn_eq, submitIn_eq, Producer.chosenId_some hid,
    Producer.chosenId_some hid]
  simp only [hmode]
  have hscore : r.scheduler.score env.producer.predict job.taskId job.taskType job.payloadSize =
      r.scheduler.score env.predict job.taskId job.taskType job.payloadSize := rfl
  rw [hscore]
  cases r.scheduler.score env.predict job.taskId job.taskType job.payloadSize with
  | error exc => exact ⟨r.scheduler, some exc, rfl, rfl, hmode⟩
  | ok score =>
    simp only [LearnedScheduler.push]
    by_cases hregistered : job.taskId ∈ r.scheduler.registry
    · rw [if_pos hregistered]
      exact ⟨r.scheduler, some _, rfl, rfl, hmode⟩
    · rw [if_neg hregistered]
      exact ⟨_, none, rfl, rfl, hmode⟩

theorem submitAll_eq_producer (depth : ℕ) (hmode : r.scheduler.mode = .active)
    (hids : ∀ job ∈ jobs, job.taskId ≠ "") :
    ∃ scheduler raised,
      Producer.submitAll env.producer ⟨r.scheduler, []⟩ jobs = (⟨scheduler, []⟩, raised) ∧
      r.submitAll env depth jobs = ({ r with scheduler }, raised.elim (.ok ()) .error) := by
  induction jobs generalizing r with
  | nil => exact ⟨r.scheduler, none, rfl, rfl⟩
  | cons job jobs ih =>
    obtain ⟨hid, hids⟩ := List.forall_mem_cons.mp hids
    obtain ⟨scheduler, raised, hproducer, heager, hmode'⟩ :=
      submit_eq_producer depth hmode hid
    rw [Producer.submitAll, hproducer, submitAll, heager]
    cases raised with
    | some exc => exact ⟨scheduler, some exc, rfl, rfl⟩
    | none => exact ih (r := { r with scheduler }) hmode' hids

omit [Zero Score] in
/-- The batch that is held after it has been scored. -/
theorem holding_of_holds {ranker : Ranker} {stats : TypeStatsTracker}
    {scored : List (Score × ProducerJob)} {p : Producer Score Ranker}
    (hholds : Producer.Holds ranker stats scored p)
    (hnd : ((scored.map Prod.snd).map ProducerJob.taskId).Nodup) (ticks : ℕ) :
    Holding ((sortBy Prod.fst scored).map Prod.snd)
      (⟨⟨[], ticks, [], []⟩, p.scheduler⟩ : EagerRun Score Ranker) := by
  have hperm : (((sortBy Prod.fst scored).map Prod.snd).map ProducerJob.taskId).Perm
      ((scored.map Prod.snd).map ProducerJob.taskId) :=
    ((sortBy_perm Prod.fst scored).map Prod.snd).map ProducerJob.taskId
  refine ⟨hholds.mode, ?_, fun id => ?_, hperm.nodup_iff.mpr hnd, fun _ _ hmem => by cases hmem⟩
  · show (sortBy HeapEntry.key p.scheduler.heap).map HeapEntry.applyFn = _
    rw [hholds.heap]
    exact map_applyFn_sortBy scored
  · rw [hperm.mem_iff, List.map_map]
    constructor
    · intro hmem
      by_contra hnot
      exact hholds.fresh id hnot hmem
    · intro hmem
      obtain ⟨x, hx, rfl⟩ := List.mem_map.mp hmem
      exact Finmap.lookup_isSome.mp (by
        show (p.scheduler.registry.lookup x.2.taskId).isSome = true
        rw [hholds.registered x hx]
        rfl)

omit [LinearOrder Score] [Zero Score] in
theorem length_jctsMs (t0 : ℚ) (h : ∀ job ∈ jobs, job.taskId ∈ r.completeTimes.map Prod.fst) :
    (r.jctsMs t0 jobs).length = jobs.length := by
  induction jobs with
  | nil => rfl
  | cons job jobs ih =>
    obtain ⟨hjob, hjobs⟩ := List.forall_mem_cons.mp h
    have hrest := ih hjobs
    cases hlookup : r.completeTimes.lookup job.taskId with
    | none =>
      obtain ⟨item, hmem, heq⟩ := List.mem_map.mp hjob
      have hne := List.lookup_eq_none_iff.mp hlookup item hmem
      rw [heq] at hne
      simp at hne
    | some t =>
      rw [jctsMs, List.filterMap_cons, hlookup]
      dsimp only [Option.map_some]
      rw [List.length_cons, List.length_cons]
      exact congrArg Nat.succ hrest

/-- A batch before its first task is executed. -/
def waiting (scheduler : LearnedScheduler Score ProducerJob Ranker) : EagerRun Score Ranker :=
  ⟨⟨[], 1, [], []⟩, scheduler⟩

/-- The batch is scored whole and dispatched as a nest, or the first job without a score ends it. -/
theorem runMode_active (env : EagerEnv Score Ranker) (ranker : Ranker) (stats : TypeStatsTracker)
    {jobs : List ProducerJob} (hids : ∀ job ∈ jobs, job.taskId ≠ "")
    (hnd : (jobs.map ProducerJob.taskId).Nodup) (depth : ℕ) :
    (∃ exc scheduler, env.producer.scoreAll ranker stats [] jobs = .error exc ∧
        runMode env depth .active ranker stats jobs = (waiting scheduler, .error exc)) ∨
      ∃ scored scheduler, env.producer.scoreAll ranker stats [] jobs = .ok scored ∧
        Holding ((sortBy Prod.fst scored).map Prod.snd) (waiting scheduler) ∧
        runMode env depth .active ranker stats jobs =
          ((dispatchNext (apply env depth) (waiting scheduler)).1,
            (dispatchNext (apply env depth) (waiting scheduler)).2.map fun _ =>
              (dispatchNext (apply env depth) (waiting scheduler)).1.jctsMs (env.monotonic 0) jobs) := by
  have hnew : Producer.Holds ranker stats []
      (⟨.new .active ranker stats, []⟩ : Producer Score Ranker) := Producer.holds_new
  have hmode : (waiting (.new .active ranker stats) : EagerRun Score Ranker).scheduler.mode = .active := rfl
  obtain ⟨scheduler, raised, hproducer, heager⟩ :=
    submitAll_eq_producer depth hmode hids
  have heager' : submitAll env depth ⟨⟨[], 1, [], []⟩, .new .active ranker stats⟩ jobs =
      (waiting scheduler, raised.elim (.ok ()) .error) := heager
  rw [runMode, heager']
  rcases hnew.submitAll env.producer hids hnd with
    ⟨exc, p, hfails, hended, -⟩ | ⟨scored, p, hscored, hended, hholds⟩
  · cases hproducer.symm.trans hended
    exact .inl ⟨exc, scheduler, hfails, rfl⟩
  · cases hproducer.symm.trans hended
    have hnodup : ((scored.map Prod.snd).map ProducerJob.taskId).Nodup := by
      rw [scoreAll_map_snd hscored]
      exact hnd
    refine .inr ⟨scored, scheduler, hscored, holding_of_holds hholds hnodup 1, ?_⟩
    dsimp only [Option.elim_none]
    rw [if_pos rfl]
    cases dispatchNext (apply env depth) (waiting scheduler) with
    | mk r result =>
      cases result with
      | error exc => rfl
      | ok dispatched => rfl

theorem sendAll_ok (sent jobs : List ProducerJob) :
    sendAll (fun _ _ => .ok ()) sent jobs = (sent ++ jobs, none) := by
  induction jobs generalizing sent with
  | nil => rw [sendAll, List.append_nil]
  | cons job jobs ih =>
    rw [sendAll]
    exact (ih (sent ++ [job])).trans (by rw [List.append_assoc]; rfl)

omit [Zero Score] in
theorem sends_scored {env : EagerEnv Score Ranker} {ranker : Ranker} {stats : TypeStatsTracker}
    {scored : List (Score × ProducerJob)} (h : env.producer.scoreAll ranker stats [] jobs = .ok scored) :
    env.producer.sends ranker stats .active jobs = ((sortBy Prod.fst scored).map Prod.snd, none) := by
  rw [ProducerEnv.sends, h]
  exact (sendAll_ok [] _).trans (by rw [List.nil_append])

/-- A batch that can be scored is executed in the order in which the producer would send it, up to the first
task that raises or whose completion cannot be recorded; the others stay held. Only the exception of the
first task reaches `_run_mode`. -/
theorem eager_batch {env : EagerEnv Score Ranker} (happ : env.Eager) (ranker : Ranker)
    (stats : TypeStatsTracker) {jobs : List ProducerJob} (hids : ∀ job ∈ jobs, job.taskId ≠ "")
    (hnd : (jobs.map ProducerJob.taskId).Nodup) {depth : ℕ} (hdepth : jobs.length ≤ depth) :
    let sent := env.producer.sends ranker stats .active jobs
    let ended := runMode env depth .active ranker stats jobs
    (∀ exc, sent.2 = some exc → ended.2 = .error exc ∧ ended.1.executed = []) ∧
    (sent.2 = none →
      (∃ k, Chained env sent.1 k (waiting (.new .active ranker stats)) ended.1) ∧
      (∀ job, sent.1.head? = some job →
        ended.2 = (env.body job).map fun _ => ended.1.jctsMs (env.monotonic 0) jobs) ∧
      (ended.1.refused = [] → (∀ job ∈ jobs, env.body job = .ok ()) →
        ended.1.executed = sent.1 ∧ ended.1.scheduler.heap = [] ∧ ended.1.scheduler.registry = ∅ ∧
        ∃ jcts, ended.2 = .ok jcts ∧ jcts.length = jobs.length)) := by
  intro sent ended
  rcases runMode_active env ranker stats hids hnd depth with
    ⟨exc, scheduler, hfails, hended⟩ | ⟨scored, scheduler, hscored, hholding, hended⟩
  · have hsent : sent = ([], some exc) := by
      show env.producer.sends ranker stats .active jobs = _
      rw [ProducerEnv.sends, hfails]
    have hended' : ended = (waiting scheduler, .error exc) := hended
    rw [hsent, hended']
    refine ⟨?_, fun hnone => by cases hnone⟩
    intro exc' hsome
    cases hsome
    exact ⟨rfl, rfl⟩
  · have hsent : sent = ((sortBy Prod.fst scored).map Prod.snd, none) := sends_scored hscored
    have hperm : ((sortBy Prod.fst scored).map Prod.snd).Perm jobs := by
      have hsorted := (sortBy_perm Prod.fst scored).map Prod.snd
      rwa [scoreAll_map_snd hscored] at hsorted
    rw [hsent]
    dsimp only
    generalize (sortBy Prod.fst scored).map Prod.snd = order at hholding hperm
    have hdepth' : order.length ≤ depth := hperm.length_eq.trans_le hdepth
    obtain ⟨⟨k, hchained⟩, houtcome⟩ := dispatchNext_chained happ hholding hdepth'
    have hended' : ended = ((dispatchNext (apply env depth) (waiting scheduler)).1,
        (dispatchNext (apply env depth) (waiting scheduler)).2.map fun _ =>
          (dispatchNext (apply env depth) (waiting scheduler)).1.jctsMs (env.monotonic 0) jobs) := hended
    rw [hended']
    dsimp only
    refine ⟨?_, fun _ => ⟨⟨k, ?_⟩, ?_, ?_⟩⟩
    · intro exc hsome
      cases hsome
    · exact ⟨hchained.bound, hchained.started, hchained.executed, hchained.held, hchained.registered,
        hchained.completed, hchained.returned, hchained.refused, hchained.stopped⟩
    · intro job hhead
      rw [houtcome job hhead]
      cases env.body job with
      | error exc => rfl
      | ok value => rfl
    · intro hrefused hreturns
      have hreturns' : ∀ job ∈ order, env.body job = .ok () := fun job hmem =>
        hreturns job (hperm.mem_iff.mp hmem)
      obtain ⟨hexecuted, hheap, hregistry, hcompleted⟩ := hchained.complete hrefused hreturns'
      have hjcts := length_jctsMs (env.monotonic 0) fun job hmem => by
        rw [hcompleted]
        exact List.mem_append_right _ (List.mem_map_of_mem (hperm.mem_iff.mpr hmem))
      refine ⟨hexecuted, hheap, hregistry, _, ?_, hjcts⟩
      obtain ⟨dispatched, hdispatched⟩ := dispatchNext_ok happ hholding hdepth' hreturns'
      rw [hdispatched]
      rfl

/-- The exception of a function goes out without a signal. -/
def executeTask {State : Type} (calls : TaskCalls State) (r : State) : State × Except PyException Unit :=
  match calls.body (calls.prerun r) with
  | (r, .error exc) => (r, .error exc)
  | (r, .ok _) => ((calls.success r).1, .ok ())

/-- Scores by task type, tasks that return and a clock that ticks in milliseconds. -/
def steady : EagerEnv ℕ Unit where
  predict _ candidate _ := .ok (if candidate.taskType = "resize" then 1 else 2)
  record ranker _ := (ranker, .ok ())
  body _ := .ok ()
  monotonic n := n / 1000
  sendsFailure := false
  execute := executeTask

theorem steady_eager : steady.Eager where
  returns calls r hbody := by
    show executeTask calls r = _
    rw [executeTask]
    generalize calls.body (calls.prerun r) = called at hbody
    obtain ⟨r', result⟩ := called
    cases hbody
    rfl
  raises calls r exc hbody := by
    show executeTask calls r = _
    rw [executeTask]
    generalize calls.body (calls.prerun r) = called at hbody
    obtain ⟨r', result⟩ := called
    cases hbody
    rfl

theorem eager_batch_threeJobs :
    (runMode steady 3 .active () (.new 100) threeJobs).1.executed.map ProducerJob.taskId =
        ["b", "c", "a"] ∧
      (runMode steady 3 .active () (.new 100) threeJobs).1.scheduler.heap = [] := by
  have hsent : (steady.producer.sends () (.new 100) .active threeJobs).1.map ProducerJob.taskId =
      ["b", "c", "a"] := by decide +kernel
  have hscored : (steady.producer.sends () (.new 100) .active threeJobs).2 = none := by decide +kernel
  have hrefused : (runMode steady 3 .active () (.new 100) threeJobs).1.refused = [] := by
    decide +kernel
  have hbatch := (eager_batch steady_eager () (.new 100) (show ∀ job ∈ threeJobs, _ from by decide)
    (by decide) le_rfl).2 hscored
  obtain ⟨hexecuted, hheap, -⟩ := hbatch.2.2 hrefused (fun _ _ => rfl)
  exact ⟨(congrArg (List.map ProducerJob.taskId) hexecuted).trans hsent, hheap⟩

end Batches

end EagerRun

end Chronoq.Celery
