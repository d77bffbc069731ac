import Chronoq.Celery.Scheduler

/-! # `signals.py`: the four handlers of `attach_signals`

A handler is a function of the scheduler and of what the signal carries. Of a task's keyword
arguments a handler reads two: `task_type`, and `int(payload_size)`, which may raise. An exception
of a handler is logged and swallowed by Celery, so it is part of the result (`Handled.raised`) and
the scheduler is whatever the handler had made of it by then. -/

namespace Chronoq.Celery
open Foundations Ranker

set_option autoImplicit false

variable {Score ApplyFn Ranker : Type}

/-- The keyword arguments of a Celery task as the handlers see them: absent, or the type, and what
`int(...)` makes of the payload size. -/
structure TaskKwargs where
  taskType : Option String
  payloadSize : Option (Except PyException ℤ)

/-- `int(kwargs.get("payload_size", 0))` -/
def TaskKwargs.payload (kwargs : TaskKwargs) : Except PyException ℤ :=
  kwargs.payloadSize.getD (.ok 0)

/-- The `sender` of a signal: a task with its name and its current request. -/
structure Sender where
  name : String
  requestId : Option String
  requestKwargs : Option TaskKwargs

/-- `if task_id`: neither `None` nor empty. -/
def truthyId (taskId : Option String) : Option String :=
  taskId.filter fun id => id ≠ ""

/-- What the world outside the scheduler does while a handler runs: `TaskRanker.record`, and whether
calling an `apply_fn` enqueues the task or raises. -/
structure HandlerEnv (ApplyFn Ranker : Type) where
  record : Ranker → RecordCall → Ranker × Except PyException Unit
  apply : ApplyFn → Except PyException Unit

/-- How a handler ends. `dispatched` is the entry whose `apply_fn` it called with success. -/
structure Handled (Score ApplyFn Ranker : Type) where
  scheduler : LearnedScheduler Score ApplyFn Ranker
  raised : Option PyException
  dispatched : Option (HeapEntry Score ApplyFn)

/-! ## The handlers -/

def onTaskPrerun (s : LearnedScheduler Score ApplyFn Ranker) (sender : Option Sender)
    (taskId : Option String) (kwargs : Option TaskKwargs) (nowMs : ℚ) :
    Handled Score ApplyFn Ranker :=
  let given := kwargs.getD ⟨none, none⟩
  let taskType := given.taskType.getD ((sender.map Sender.name).getD "unknown")
  match given.payload with
  | .error exc => ⟨s, some exc, none⟩
  | .ok payloadSize =>
    match truthyId taskId with
    | none => ⟨s, none, none⟩
    | some id => ⟨s.recordStart id taskType payloadSize nowMs, none, none⟩

variable [LinearOrder Score]

/-- `scheduler.dispatch_next()` at the end of `on_task_success`, with what an `apply_fn` acts on outside the
scheduler. -/
def dispatchHeldIn {World : Type} (apply : ApplyFn → World → World × Except PyException Unit)
    (s : LearnedScheduler Score ApplyFn Ranker) (world : World) :
    Handled Score ApplyFn Ranker × World :=
  match s.pop with
  | none => (⟨s, none, none⟩, world)
  | some (e, s') =>
    match apply e.applyFn world with
    | (world', .error exc) => (⟨s', some exc, none⟩, world')
    | (world', .ok _) => (⟨s', none, some e⟩, world')

def onTaskSuccessIn {World : Type} (record : Ranker → RecordCall → Ranker × Except PyException Unit)
    (apply : ApplyFn → World → World × Except PyException Unit)
    (s : LearnedScheduler Score ApplyFn Ranker) (world : World) (sender : Option Sender) (nowMs : ℚ) :
    Handled Score ApplyFn Ranker × World :=
  let taskId := sender.bind Sender.requestId
  let taskType := (sender.map Sender.name).getD "unknown"
  -- `sender.request` of no sender and `.get` of no dictionary are attribute errors
  match sender.bind Sender.requestKwargs with
  | none => (⟨s, some (.raised "AttributeError"), none⟩, world)
  | some kwargs =>
    match kwargs.payload with
    | .error exc => (⟨s, some exc, none⟩, world)
    | .ok payloadSize =>
      let done : LearnedScheduler.Completion Score ApplyFn Ranker :=
        match truthyId taskId with
        | none => ⟨s, .ok none, none⟩
        | some id => s.recordCompletion record id taskType payloadSize nowMs
      match done.outcome with
      | .error exc => (⟨done.scheduler, some exc, none⟩, world)
      | .ok _ =>
        if done.scheduler.mode = .active then dispatchHeldIn apply done.scheduler world
        else (⟨done.scheduler, none, none⟩, world)

omit [LinearOrder Score] in
/-- An `apply_fn` whose call only returns or raises. -/
def HandlerEnv.applyAlone (env : HandlerEnv ApplyFn Ranker) (applyFn : ApplyFn) (world : Unit) :
    Unit × Except PyException Unit := (world, env.apply applyFn)

def dispatchHeld (env : HandlerEnv ApplyFn Ranker) (s : LearnedScheduler Score ApplyFn Ranker) :
    Handled Score ApplyFn Ranker := (dispatchHeldIn env.applyAlone s ()).1

def onTaskSuccess (env : HandlerEnv ApplyFn Ranker) (s : LearnedScheduler Score ApplyFn Ranker)
    (sender : Option Sender) (nowMs : ℚ) : Handled Score ApplyFn Ranker :=
  (onTaskSuccessIn env.record env.applyAlone s () sender nowMs).1

omit [LinearOrder Score] in
def onTaskFailure (s : LearnedScheduler Score ApplyFn Ranker) (taskId : Option String) :
    Handled Score ApplyFn Ranker :=
  match truthyId taskId with
  | none => ⟨s, none, none⟩
  | some id => ⟨s.cleanupRegistry id, none, none⟩

omit [LinearOrder Score] in
def onTaskRevoked (s : LearnedScheduler Score ApplyFn Ranker) (requestId : Option String) :
    Handled Score ApplyFn Ranker :=
  match truthyId requestId with
  | none => ⟨s, none, none⟩
  | some id => ⟨s.cleanupRegistry id, none, none⟩

/-! ## What the handlers do to the heap -/

theorem dispatchHeld_eq (env : HandlerEnv ApplyFn Ranker) (s : LearnedScheduler Score ApplyFn Ranker) :
    dispatchHeld env s =
      match s.pop with
      | none => ⟨s, none, none⟩
      | some (e, s') =>
        match env.apply e.applyFn with
        | .error exc => ⟨s', some exc, none⟩
        | .ok _ => ⟨s', none, some e⟩ := by
  rw [dispatchHeld, dispatchHeldIn]
  cases s.pop with
  | none => rfl
  | some p =>
    dsimp only [HandlerEnv.applyAlone]
    cases env.apply p.1.applyFn <;> rfl

/-- `on_task_success` where nothing but the scheduler matters. -/
theorem onTaskSuccess_steps (env : HandlerEnv ApplyFn Ranker) (s : LearnedScheduler Score ApplyFn Ranker)
    (sender : Option Sender) (nowMs : ℚ) :
    onTaskSuccess env s sender nowMs =
      match sender.bind Sender.requestKwargs with
      | none => ⟨s, some (.raised "AttributeError"), none⟩
      | some kwargs =>
        match kwargs.payload with
        | .error exc => ⟨s, some exc, none⟩
        | .ok payloadSize =>
          let done : LearnedScheduler.Completion Score ApplyFn Ranker :=
            match truthyId (sender.bind Sender.requestId) with
            | none => ⟨s, .ok none, none⟩
            | some id => s.recordCompletion env.record id ((sender.map Sender.name).getD "unknown")
                payloadSize nowMs
          match done.outcome with
          | .error exc => ⟨done.scheduler, some exc, none⟩
          | .ok _ =>
            if done.scheduler.mode = .active then dispatchHeld env done.scheduler
            else ⟨done.scheduler, none, none⟩ := by
  rw [onTaskSuccess, onTaskSuccessIn]
  cases sender.bind Sender.requestKwargs with
  | none => rfl
  | some kwargs =>
    dsimp only
    cases kwargs.payload with
    | error exc => rfl
    | ok payloadSize =>
      dsimp only
      split
      · rfl
      · exact apply_ite Prod.fst _ _ _

/-- `dispatchHeld` is `dispatch_next` for an `apply_fn` that does not use the scheduler. -/
theorem dispatchHeld_eq_dispatchNext (env : HandlerEnv ApplyFn Ranker)
    (s : LearnedScheduler Score ApplyFn Ranker) :
    s.dispatchNext (fun f s' => (s', env.apply f)) =
      ((dispatchHeld env s).scheduler, match (dispatchHeld env s).raised with
        | some exc => .error exc
        | none => .ok (dispatchHeld env s).dispatched.isSome) := by
  rw [LearnedScheduler.dispatchNext, dispatchHeld_eq]
  cases hpop : s.pop with
  | none => rfl
  | some p =>
    cases happly : env.apply p.1.applyFn with
    | error exc => simp [happly, Except.map]
    | ok _ => simp [happly, Except.map]

omit [LinearOrder Score] in
theorem recordCompletion_heap (record : Ranker → RecordCall → Ranker × Except PyException Unit)
    (s : LearnedScheduler Score ApplyFn Ranker) (taskId taskType : String) (payloadSize : ℤ)
    (nowMs : ℚ) :
    (s.recordCompletion record taskId taskType payloadSize nowMs).scheduler.heap = s.heap ∧
      (s.recordCompletion record taskId taskType payloadSize nowMs).scheduler.mode = s.mode := by
  unfold LearnedScheduler.recordCompletion
  simp only [LearnedScheduler.takeEntry]
  split
  · exact ⟨rfl, rfl⟩
  · split <;> exact ⟨rfl, rfl⟩

omit [LinearOrder Score] in
theorem onTaskPrerun_heap (s : LearnedScheduler Score ApplyFn Ranker) (sender : Option Sender)
    (taskId : Option String) (kwargs : Option TaskKwargs) (nowMs : ℚ) :
    (onTaskPrerun s sender taskId kwargs nowMs).scheduler.heap = s.heap ∧
      (onTaskPrerun s sender taskId kwargs nowMs).scheduler.mode = s.mode := by
  unfold onTaskPrerun
  dsimp only
  split
  · exact ⟨rfl, rfl⟩
  · split
    · exact ⟨rfl, rfl⟩
    · unfold LearnedScheduler.recordStart
      split <;> exact ⟨rfl, rfl⟩

omit [LinearOrder Score] in
theorem onTaskFailure_heap (s : LearnedScheduler Score ApplyFn Ranker) (taskId : Option String) :
    (onTaskFailure s taskId).scheduler.heap = s.heap ∧
      (onTaskFailure s taskId).scheduler.mode = s.mode ∧ (onTaskFailure s taskId).dispatched = none := by
  unfold onTaskFailure
  split <;> exact ⟨rfl, rfl, rfl⟩

omit [LinearOrder Score] in
theorem onTaskFailure_registry (s : LearnedScheduler Score ApplyFn Ranker) (taskId : Option String)
    (id : String) : (onTaskFailure s taskId).scheduler.registry.lookup id =
      if truthyId taskId = some id then none else s.registry.lookup id := by
  unfold onTaskFailure
  cases htruthy : truthyId taskId with
  | none => rfl
  | some named =>
    dsimp only [LearnedScheduler.cleanupRegistry]
    by_cases heq : id = named
    · subst heq
      rw [Finmap.lookup_erase, if_pos rfl]
    · rw [Finmap.lookup_erase_ne heq, if_neg fun h => heq (Option.some.inj h).symm]

omit [LinearOrder Score] in
theorem onTaskRevoked_heap (s : LearnedScheduler Score ApplyFn Ranker) (requestId : Option String) :
    (onTaskRevoked s requestId).scheduler.heap = s.heap ∧
      (onTaskRevoked s requestId).scheduler.mode = s.mode ∧
      (onTaskRevoked s requestId).dispatched = none :=
  onTaskFailure_heap s requestId

/-- A `dispatch_next` that raises nothing finds the heap empty or dispatches the least entry held. -/
theorem dispatchHeld_spec {env : HandlerEnv ApplyFn Ranker}
    {s : LearnedScheduler Score ApplyFn Ranker} (h : (dispatchHeld env s).raised = none) :
    (s.heap = [] ∧ (dispatchHeld env s).scheduler.heap = [] ∧ (dispatchHeld env s).dispatched = none) ∨
      ∃ e, s.heap.Perm (e :: (dispatchHeld env s).scheduler.heap) ∧
        (∀ e' ∈ s.heap, e.key ≤ e'.key) ∧ (dispatchHeld env s).dispatched = some e := by
  rw [dispatchHeld_eq, LearnedScheduler.pop] at h ⊢
  cases hleast : extractLeast HeapEntry.key s.heap with
  | none =>
    have hempty : s.heap = [] := (extractLeast_eq_none_iff _).mp hleast
    exact .inl ⟨hempty, hempty, rfl⟩
  | some p =>
    obtain ⟨e, rest⟩ := p
    cases happly : env.apply e.applyFn with
    | error exc => simp [hleast, happly] at h
    | ok _ =>
      refine .inr ⟨e, ?_, extractLeast_le _ hleast, ?_⟩
      · simpa [happly] using extractLeast_perm _ hleast
      · simp [happly]

theorem dispatchHeld_raised {env : HandlerEnv ApplyFn Ranker}
    {s : LearnedScheduler Score ApplyFn Ranker} {exc : PyException}
    (h : (dispatchHeld env s).raised = some exc) : (dispatchHeld env s).dispatched = none := by
  rw [dispatchHeld_eq] at h ⊢
  split
  · rfl
  · next hpop =>
    rw [hpop] at h
    dsimp only at h ⊢
    split
    · rfl
    · next happly =>
      rw [happly] at h
      cases h

theorem dispatchHeld_mode (env : HandlerEnv ApplyFn Ranker)
    (s : LearnedScheduler Score ApplyFn Ranker) : (dispatchHeld env s).scheduler.mode = s.mode := by
  rw [dispatchHeld_eq, LearnedScheduler.pop]
  cases extractLeast HeapEntry.key s.heap with
  | none => rfl
  | some p =>
    dsimp only [Option.map_some]
    split <;> rfl

theorem dispatchHeld_keeps (env : HandlerEnv ApplyFn Ranker)
    (s : LearnedScheduler Score ApplyFn Ranker) :
    (dispatchHeld env s).scheduler.ranker = s.ranker ∧ (dispatchHeld env s).scheduler.stats = s.stats ∧
      (dispatchHeld env s).scheduler.registry = s.registry := by
  rw [dispatchHeld_eq, LearnedScheduler.pop]
  cases extractLeast HeapEntry.key s.heap with
  | none => exact ⟨rfl, rfl, rfl⟩
  | some p =>
    dsimp only [Option.map_some]
    split <;> exact ⟨rfl, rfl, rfl⟩

omit [LinearOrder Score] in
theorem truthyId_some {id : String} (h : id ≠ "") : truthyId (some id) = some id := by
  simp [truthyId, h]

/-- `on_task_success` of a task with an id and a usable payload size: complete it under the name of the
sender, then dispatch. -/
theorem onTaskSuccess_eq (env : HandlerEnv ApplyFn Ranker) (s : LearnedScheduler Score ApplyFn Ranker)
    (name : String) {id : String} (hid : id ≠ "") (kwargs : TaskKwargs) {payloadSize : ℤ}
    (hpayload : kwargs.payload = .ok payloadSize) (nowMs : ℚ) :
    onTaskSuccess env s (some ⟨name, some id, some kwargs⟩) nowMs =
      let done := s.recordCompletion env.record id name payloadSize nowMs
      match done.outcome with
      | .error exc => ⟨done.scheduler, some exc, none⟩
      | .ok _ =>
        if done.scheduler.mode = .active then dispatchHeld env done.scheduler
        else ⟨done.scheduler, none, none⟩ := by
  simp only [onTaskSuccess_steps, Option.bind_some, Option.map_some, Option.getD_some, hpayload,
    truthyId_some hid]

/-- The bookkeeping of `on_task_success` comes to an end in a scheduler with the same heap and mode,
and from there the handler either leaves with an exception or, in active mode, calls
`dispatch_next`. -/
theorem onTaskSuccess_cases (env : HandlerEnv ApplyFn Ranker)
    (s : LearnedScheduler Score ApplyFn Ranker) (sender : Option Sender) (nowMs : ℚ) :
    ∃ s', s'.heap = s.heap ∧ s'.mode = s.mode ∧
      ((∃ exc, onTaskSuccess env s sender nowMs = ⟨s', some exc, none⟩) ∨
        onTaskSuccess env s sender nowMs =
          if s'.mode = .active then dispatchHeld env s' else ⟨s', none, none⟩) := by
  rw [onTaskSuccess_steps]
  split
  · exact ⟨s, rfl, rfl, .inl ⟨_, rfl⟩⟩
  · split
    · exact ⟨s, rfl, rfl, .inl ⟨_, rfl⟩⟩
    · next payloadSize _ =>
      cases truthyId (sender.bind Sender.requestId) with
      | none => exact ⟨s, rfl, rfl, .inr rfl⟩
      | some id =>
        obtain ⟨hheap, hmode⟩ := recordCompletion_heap env.record s id
          ((sender.map Sender.name).getD "unknown") payloadSize nowMs
        refine ⟨_, hheap, hmode, ?_⟩
        dsimp only
        split
        · exact .inl ⟨_, rfl⟩
        · exact .inr rfl

/-- How `on_task_success` ends, whatever the `apply_fn`s act on: it leaves before `dispatch_next`, or goes
on to ask for the mode. -/
theorem onTaskSuccessIn_ended {World : Type}
    (record : Ranker → RecordCall → Ranker × Except PyException Unit)
    (apply : ApplyFn → World → World × Except PyException Unit)
    (s : LearnedScheduler Score ApplyFn Ranker) (sender : Option Sender) (nowMs : ℚ) :
    ∃ s', s'.mode = s.mode ∧
      ((∃ exc, ∀ world, onTaskSuccessIn record apply s world sender nowMs = (⟨s', some exc, none⟩, world)) ∨
        ∀ world, onTaskSuccessIn record apply s world sender nowMs =
          if s'.mode = .active then dispatchHeldIn apply s' world else (⟨s', none, none⟩, world)) := by
  unfold onTaskSuccessIn
  dsimp only
  cases sender.bind Sender.requestKwargs with
  | none => exact ⟨s, rfl, .inl ⟨_, fun _ => rfl⟩⟩
  | some kwargs =>
    dsimp only
    cases kwargs.payload with
    | error exc => exact ⟨s, rfl, .inl ⟨_, fun _ => rfl⟩⟩
    | ok payloadSize =>
      dsimp only
      cases truthyId (sender.bind Sender.requestId) with
      | none => exact ⟨s, rfl, .inr fun _ => rfl⟩
      | some id =>
        dsimp only
        refine ⟨_, (recordCompletion_heap record s id ((sender.map Sender.name).getD "unknown")
          payloadSize nowMs).2, ?_⟩
        split
        · exact .inl ⟨_, fun _ => rfl⟩
        · exact .inr fun _ => rfl

theorem onTaskSuccess_mode (env : HandlerEnv ApplyFn Ranker)
    (s : LearnedScheduler Score ApplyFn Ranker) (sender : Option Sender) (nowMs : ℚ) :
    (onTaskSuccess env s sender nowMs).scheduler.mode = s.mode := by
  obtain ⟨s', -, hmode, ⟨exc, h⟩ | h⟩ := onTaskSuccess_cases env s sender nowMs
  · rw [h]
    exact hmode
  · rw [h]
    split
    · rw [dispatchHeld_mode]
      exact hmode
    · exact hmode

/-- An `on_task_success` in active mode that raises nothing ends in a `dispatch_next` on the heap as
it was when the signal came in. -/
theorem onTaskSuccess_dispatches {env : HandlerEnv ApplyFn Ranker}
    {s : LearnedScheduler Score ApplyFn Ranker} {sender : Option Sender} {nowMs : ℚ}
    (hmode : s.mode = .active) (h : (onTaskSuccess env s sender nowMs).raised = none) :
    ∃ s', s'.heap = s.heap ∧ onTaskSuccess env s sender nowMs = dispatchHeld env s' := by
  obtain ⟨s', hheap, hmode', ⟨exc, hexc⟩ | hdone⟩ := onTaskSuccess_cases env s sender nowMs
  · rw [hexc] at h
    cases h
  · rw [if_pos (hmode'.trans hmode)] at hdone
    exact ⟨s', hheap, hdone⟩

/-- A success handler that raises has dispatched nothing. -/
theorem onTaskSuccess_raised {env : HandlerEnv ApplyFn Ranker}
    {s : LearnedScheduler Score ApplyFn Ranker} {sender : Option Sender} {nowMs : ℚ}
    {exc : PyException} (h : (onTaskSuccess env s sender nowMs).raised = some exc) :
    (onTaskSuccess env s sender nowMs).dispatched = none := by
  obtain ⟨s', -, -, ⟨_, hexc⟩ | hdone⟩ := onTaskSuccess_cases env s sender nowMs
  · rw [hexc]
  · rw [hdone] at h ⊢
    split at h
    · next hactive =>
      rw [if_pos hactive]
      exact dispatchHeld_raised h
    · cases h

/-- In active mode a success handler that leaves something held has dispatched a task exactly when it
has raised nothing. -/
theorem onTaskSuccess_empty_or_dispatched (env : HandlerEnv ApplyFn Ranker)
    (s : LearnedScheduler Score ApplyFn Ranker) (sender : Option Sender) (nowMs : ℚ)
    (hmode : s.mode = .active) :
    (onTaskSuccess env s sender nowMs).scheduler.heap = [] ∨
        (onTaskSuccess env s sender nowMs).dispatched ≠ none ↔
      (onTaskSuccess env s sender nowMs).scheduler.heap = [] ∨
        (onTaskSuccess env s sender nowMs).raised = none := by
  cases hraised : (onTaskSuccess env s sender nowMs).raised with
  | none =>
    obtain ⟨s', -, hdispatch⟩ := onTaskSuccess_dispatches hmode hraised
    rw [hdispatch] at hraised ⊢
    rcases dispatchHeld_spec hraised with ⟨-, hempty, -⟩ | ⟨e, -, -, hsome⟩
    · simp [hempty]
    · simp [hsome]
  | some exc =>
    have hnone : (onTaskSuccess env s sender nowMs).dispatched = none :=
      onTaskSuccess_raised hraised
    simp [hnone]

end Chronoq.Celery
