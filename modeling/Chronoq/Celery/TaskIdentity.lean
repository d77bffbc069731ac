import Chronoq.Celery.Calls
import Chronoq.Celery.Telemetry

/-! # Under which type and size a task is recorded

The task type of one task travels along four ways: `submit` scores it and registers it, `task_prerun`
takes it from the keyword arguments (falling back on the name of the Celery task), and `task_success`
takes the name of the Celery task without looking at the keyword arguments. So the duration is recorded
under the name of the Celery task, while `_score` asks the statistics for the type submitted.

What a handler hands to `ranker.record` is read off a ranker that keeps a log of it. -/

namespace Chronoq.Celery
open Foundations Ranker

set_option autoImplicit false

variable {Score ApplyFn Ranker : Type}

/-! ## A ranker with a log -/

/-- A ranker together with the calls of `record` it has received. -/
abbrev Logged (Ranker : Type) := Ranker × List RecordCall

def logRecord (record : Ranker → RecordCall → Ranker × Except PyException Unit)
    (ranker : Logged Ranker) (call : RecordCall) : Logged Ranker × Except PyException Unit :=
  (((record ranker.1 call).1, ranker.2 ++ [call]), (record ranker.1 call).2)

/-- The same world, with the ranker's log kept. -/
def HandlerEnv.logged (env : HandlerEnv ApplyFn Ranker) : HandlerEnv ApplyFn (Logged Ranker) where
  record := logRecord env.record
  apply := env.apply

theorem recordCompletion_logged (record : Ranker → RecordCall → Ranker × Except PyException Unit)
    {s : LearnedScheduler Score ApplyFn (Logged Ranker)} {ranker : Ranker} {log : List RecordCall}
    (hranker : s.ranker = some (ranker, log)) {taskId : String} {startMs : ℚ}
    (hstart : startOf s taskId = some startMs) (taskType : String) (payloadSize : ℤ) (nowMs : ℚ) :
    ∃ ranker' metadata,
      (s.recordCompletion (logRecord record) taskId taskType payloadSize nowMs).scheduler.ranker =
        some (ranker', log ++ [⟨taskType, payloadSize, nowMs - startMs, metadata⟩]) ∧
      (s.recordCompletion (logRecord record) taskId taskType payloadSize nowMs).scheduler.stats =
        s.stats.record taskType (nowMs - startMs) := by
  unfold startOf at hstart
  simp only [LearnedScheduler.recordCompletion, LearnedScheduler.takeEntry, hstart, hranker, logRecord]
  exact ⟨_, _, rfl, trivial⟩

/-! ## The two handlers of one execution -/

/-- The keyword arguments of the quickstart: `{"task_type": ..., "payload_size": ...}`. -/
def quickstartKwargs (taskType : String) (payloadSize : ℤ) : TaskKwargs :=
  ⟨some taskType, some (.ok payloadSize)⟩

/-- The Celery task `name`, executing the call of the quickstart under `id`. -/
def quickstartSender (name id taskType : String) (payloadSize : ℤ) : Sender :=
  ⟨name, some id, some (quickstartKwargs taskType payloadSize)⟩

theorem onTaskPrerun_quickstart (s : LearnedScheduler Score ApplyFn Ranker)
    (name : String) {id : String} (hid : id ≠ "") (taskType : String) (payloadSize : ℤ) (nowMs : ℚ) :
    (onTaskPrerun s (some (quickstartSender name id taskType payloadSize)) (some id)
      (some (quickstartKwargs taskType payloadSize)) nowMs).scheduler =
      s.recordStart id taskType payloadSize nowMs := by
  simp [onTaskPrerun, quickstartKwargs, TaskKwargs.payload, truthyId_some hid]

/-- `on_task_success` completes the task under the name of the sender; its `dispatch_next` changes
neither ranker nor statistics nor registry. -/
theorem onTaskSuccess_completes [LinearOrder Score] (env : HandlerEnv ApplyFn Ranker)
    (s : LearnedScheduler Score ApplyFn Ranker) (name : String) {id : String} (hid : id ≠ "")
    (kwargs : TaskKwargs) {payloadSize : ℤ} (hpayload : kwargs.payload = .ok payloadSize) (nowMs : ℚ) :
    let handled := onTaskSuccess env s (some ⟨name, some id, some kwargs⟩) nowMs
    let done := (s.recordCompletion env.record id name payloadSize nowMs).scheduler
    handled.scheduler.ranker = done.ranker ∧ handled.scheduler.stats = done.stats ∧
      handled.scheduler.registry = done.registry := by
  rw [onTaskSuccess_eq env s name hid kwargs hpayload nowMs]
  dsimp only
  split
  · exact ⟨rfl, rfl, rfl⟩
  · split
    · exact dispatchHeld_keeps env _
    · exact ⟨rfl, rfl, rfl⟩

/-! ## Identity -/

/-- A task submitted as `(taskType, payloadSize)` was registered, observed and recorded under exactly
that type and size: the registry entry of its start, the tracker after the success handler and the last
`ranker.record`. -/
structure SameIdentity (taskType : String) (payloadSize : ℤ) (actualMs : ℚ) (log : List RecordCall)
    (id : String) (started before done : LearnedScheduler Score ApplyFn (Logged Ranker)) : Prop where
  registered : ∃ startMs, started.registry.lookup id = some ⟨taskType, payloadSize, startMs⟩
  observed : done.stats = before.stats.record taskType actualMs
  recorded : ∃ ranker metadata,
    done.ranker = some (ranker, log ++ [⟨taskType, payloadSize, actualMs, metadata⟩])

/-- For a task submitted as `(taskType, payloadSize)` and enqueued with these as keyword arguments,
whatever happens to the scheduler between the two signals without touching the task's registry entry:
`task_prerun` and then `task_success` keep the identity of the task exactly when the Celery task is
named like the type. -/
theorem task_identity_iff [LinearOrder Score] (env : HandlerEnv ApplyFn Ranker)
    (name taskType : String) (payloadSize : ℤ) {id : String} (hid : id ≠ "")
    (s₀ : LearnedScheduler Score ApplyFn (Logged Ranker)) (startMs nowMs : ℚ)
    (hown : ∀ entry, s₀.registry.lookup id = some entry →
      entry.taskType = taskType ∧ entry.payloadSize = payloadSize)
    {s₁ : LearnedScheduler Score ApplyFn (Logged Ranker)}
    (hprerun : s₁ = (onTaskPrerun s₀ (some (quickstartSender name id taskType payloadSize)) (some id)
      (some (quickstartKwargs taskType payloadSize)) startMs).scheduler)
    (s₂ : LearnedScheduler Score ApplyFn (Logged Ranker))
    (hkept : s₂.registry.lookup id = s₁.registry.lookup id) {ranker : Ranker} {log : List RecordCall}
    (hranker : s₂.ranker = some (ranker, log)) :
    SameIdentity taskType payloadSize (nowMs - startMs) log id s₁ s₂
        (onTaskSuccess env.logged s₂ (some (quickstartSender name id taskType payloadSize))
          nowMs).scheduler ↔
      name = taskType := by
  have hentry : s₁.registry.lookup id = some ⟨taskType, payloadSize, some startMs⟩ := by
    rw [hprerun, onTaskPrerun_quickstart s₀ name hid, recordStart_lookup, if_pos rfl]
    cases hlookup : s₀.registry.lookup id with
    | none => rfl
    | some entry =>
      obtain ⟨rfl, rfl⟩ := hown entry hlookup
      rfl
  have hstart : startOf s₂ id = some startMs := by
    rw [startOf, hkept, hentry]
    rfl
  obtain ⟨hdoneRanker, hdoneStats, -⟩ := onTaskSuccess_completes env.logged s₂ name hid
    (quickstartKwargs taskType payloadSize) rfl nowMs
  obtain ⟨ranker', metadata, hlog, hstats⟩ :=
    recordCompletion_logged env.record hranker hstart name payloadSize nowMs
  constructor
  · intro hsame
    obtain ⟨ranker'', metadata', hrecorded⟩ := hsame.recorded
    have heq := hrecorded.symm.trans (hdoneRanker.trans hlog)
    simp only [Option.some.injEq, Prod.mk.injEq, List.append_cancel_left_eq, List.cons.injEq,
      RecordCall.mk.injEq] at heq
    exact heq.2.1.1.symm
  · rintro rfl
    exact ⟨⟨some startMs, hentry⟩, hdoneStats.trans hstats, ranker', metadata, hdoneRanker.trans hlog⟩

/-! ## The quickstart -/

/-- An active-mode scheduler with task "a" of type "resize" submitted and dispatched. -/
def quickstartDispatched : LearnedScheduler ℕ ℕ (Logged Unit) :=
  let env : CallEnv ℕ ℕ (Logged Unit) := ⟨plainEnv.logged, fun _ _ _ => .ok 0⟩
  after env (after env (.new .active ((), []) (.new 100)) (.submit "u" "resize" 1024 0 (some "a")))
    .dispatchNext

/-- The same scheduler after the `task_prerun` of the Celery task "tasks.my_task". -/
def quickstartStarted (name : String) : LearnedScheduler ℕ ℕ (Logged Unit) :=
  (onTaskPrerun quickstartDispatched (some (quickstartSender name "a" "resize" 1024)) (some "a")
    (some (quickstartKwargs "resize" 1024)) 0).scheduler

theorem quickstartDispatched_own :
    ∀ entry, quickstartDispatched.registry.lookup "a" = some entry →
      entry.taskType = "resize" ∧ entry.payloadSize = 1024 := by
  intro entry hentry
  have hlookup : quickstartDispatched.registry.lookup "a" = some ⟨"resize", 1024, none⟩ :=
    by decide +kernel
  rw [hlookup] at hentry
  cases hentry
  exact ⟨rfl, rfl⟩

theorem task_identity_iff_resize :
    SameIdentity "resize" 1024 (5 - 0) [] "a" (quickstartStarted "resize") (quickstartStarted "resize")
        (onTaskSuccess plainEnv.logged (quickstartStarted "resize")
          (some (quickstartSender "resize" "a" "resize" 1024)) 5).scheduler ↔
      "resize" = "resize" :=
  task_identity_iff plainEnv.toHandlerEnv "resize" "resize" 1024 (by decide) quickstartDispatched 0 5
    quickstartDispatched_own rfl (quickstartStarted "resize") rfl
    (by decide +kernel : (quickstartStarted "resize").ranker = some ((), []))

/-- A Celery task named "tasks.my_task" is recorded under that name, not under the type "resize" that
was submitted. -/
theorem quickstart_recorded_under_task_name :
    ¬ ∀ name : String,
      SameIdentity "resize" 1024 5 [] "a" (quickstartStarted name) (quickstartStarted name)
        (onTaskSuccess plainEnv.logged (quickstartStarted name)
          (some (quickstartSender name "a" "resize" 1024)) 5).scheduler := by
  intro hall
  obtain ⟨ranker, metadata, hrecorded⟩ := (hall "tasks.my_task").recorded
  obtain ⟨hranker, -, -⟩ := onTaskSuccess_completes plainEnv.logged (quickstartStarted "tasks.my_task")
    "tasks.my_task" (by decide : "a" ≠ "") (quickstartKwargs "resize" 1024) rfl 5
  obtain ⟨ranker', metadata', hlog, -⟩ := recordCompletion_logged plainEnv.record
    (by decide +kernel : (quickstartStarted "tasks.my_task").ranker = some ((), []))
    (by decide +kernel : startOf (quickstartStarted "tasks.my_task") "a" = some 0) "tasks.my_task" 1024 5
  have heq := hrecorded.symm.trans (hranker.trans hlog)
  simp at heq

end Chronoq.Celery
