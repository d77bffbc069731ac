import Chronoq.Celery.Registry
import Chronoq.Celery.TaskIdentity

/-! # What stays in the registry

A `World` is an active-mode scheduler with the Celery executions that its `apply_fn`s have started.
An `apply_fn` stands for one `apply_async`: the name of the Celery task, its keyword arguments and the
task id it passes, if it passes one; otherwise Celery assigns an id of its own. An execution emits
`task_prerun` and then one of `task_success`, `task_failure` and `task_revoked`, under its Celery id, in
any interleaving with the others.

`submit` registers a task under its own id. Where the execution runs under the same id, the registry is
exactly the held and the executing tasks (`Tracked`). In the quickstart it does not: the `apply_fn` passes
no id, and the entry that `submit` made is not taken out by any signal. -/

namespace Chronoq.Celery
open Foundations Ranker

set_option autoImplicit false

variable {Score Ranker : Type}

/-! ## The ids of a registry -/

/-- The registry has an entry for exactly the ids listed, which are distinct. -/
structure RegistryIs (registry : Dict String RegistryEntry) (ids : List String) : Prop where
  distinct : ids.Nodup
  mem_iff : ∀ id, id ∈ registry ↔ id ∈ ids

namespace RegistryIs
variable {registry : Dict String RegistryEntry} {ids ids' : List String} {id : String}

theorem perm (h : RegistryIs registry ids) (hperm : ids.Perm ids') : RegistryIs registry ids' where
  distinct := hperm.nodup_iff.mp h.distinct
  mem_iff id := (h.mem_iff id).trans hperm.mem_iff

theorem insert (h : RegistryIs registry ids) (hfresh : id ∉ registry) (entry : RegistryEntry) :
    RegistryIs (registry.insert id entry) (id :: ids) where
  distinct := List.nodup_cons.mpr ⟨fun hmem => hfresh ((h.mem_iff id).mpr hmem), h.distinct⟩
  mem_iff id' := by rw [Finmap.mem_insert, List.mem_cons, h.mem_iff]

theorem overwrite (h : RegistryIs registry ids) (hmem : id ∈ ids) (entry : RegistryEntry) :
    RegistryIs (registry.insert id entry) ids where
  distinct := h.distinct
  mem_iff id' := by
    rw [Finmap.mem_insert, h.mem_iff]
    refine ⟨fun hor => ?_, .inr⟩
    rcases hor with rfl | hor
    · exact hmem
    · exact hor

theorem erase (h : RegistryIs registry (id :: ids)) : RegistryIs (registry.erase id) ids where
  distinct := (List.nodup_cons.mp h.distinct).2
  mem_iff id' := by
    have hnot := (List.nodup_cons.mp h.distinct).1
    rw [Finmap.mem_erase, h.mem_iff, List.mem_cons]
    constructor
    · rintro ⟨hne, rfl | hmem⟩
      · exact absurd rfl hne
      · exact hmem
    · intro hmem
      exact ⟨fun heq => hnot (heq ▸ hmem), .inr hmem⟩

theorem eq_empty (h : RegistryIs registry []) : registry = ∅ := by
  refine Finmap.ext_lookup fun id => ?_
  rw [Finmap.lookup_empty, Finmap.lookup_eq_none, h.mem_iff]
  exact List.not_mem_nil

end RegistryIs

/-! ## Worlds -/

/-- What an `apply_fn` passes to `apply_async`. -/
structure AsyncCall where
  name : String
  kwargs : TaskKwargs
  taskId : Option String

/-- A Celery execution that has not ended: its Celery id, and whether it has emitted `task_prerun`. -/
structure Execution where
  id : String
  call : AsyncCall
  started : Bool

/-- The Celery task as its signals show it. -/
def Execution.sender (x : Execution) : Sender := ⟨x.call.name, some x.id, some x.call.kwargs⟩

/-- The execution that dispatching `e` starts; `assigned` is the id that Celery would assign. -/
def executionOf (assigned : String) (e : HeapEntry Score AsyncCall) : Execution :=
  ⟨e.applyFn.taskId.getD assigned, e.applyFn, false⟩

structure World (Score Ranker : Type) where
  sched : LearnedScheduler Score AsyncCall Ranker
  executions : List Execution

/-- A call of `submit` or `dispatch_next`, or a signal of the execution at position `i`. -/
inductive WorldEvent (Score Ranker : Type)
  | submit (env : CallEnv Score AsyncCall Ranker) (uuid taskType : String) (payloadSize : ℤ)
      (call : AsyncCall) (taskId : Option String)
  | dispatchNext (assigned : String)
  | prerun (i : ℕ) (nowMs : ℚ)
  | success (i : ℕ) (record : Ranker → RecordCall → Ranker × Except PyException Unit) (nowMs : ℚ)
      (assigned : String)
  | failure (i : ℕ)
  | revoked (i : ℕ)

namespace World

def initial (ranker : Ranker) (stats : TypeStatsTracker) : World Score Ranker :=
  ⟨.new .active ranker stats, []⟩

/-- Every `apply_fn` returns normally. -/
def returning (record : Ranker → RecordCall → Ranker × Except PyException Unit) :
    HandlerEnv AsyncCall Ranker := ⟨record, fun _ => .ok ()⟩

/-- The execution at position `i` has ended with a signal whose handler came out as `handled`. -/
def ended (w : World Score Ranker) (i : ℕ) (handled : Handled Score AsyncCall Ranker)
    (assigned : String) : World Score Ranker :=
  ⟨handled.scheduler, w.executions.eraseIdx i ++ handled.dispatched.toList.map (executionOf assigned)⟩

variable [LinearOrder Score] [Zero Score]

/-- `none` where no execution is at that position or it cannot emit the signal now. -/
def step (w : World Score Ranker) : WorldEvent Score Ranker → Option (World Score Ranker)
  | .submit env uuid taskType payloadSize call taskId =>
    some { w with sched := after env w.sched (.submit uuid taskType payloadSize call taskId) }
  | .dispatchNext assigned =>
    let handled := dispatchHeld (returning fun ranker _ => (ranker, .ok ())) w.sched
    some ⟨handled.scheduler,
      w.executions ++ handled.dispatched.toList.map (executionOf assigned)⟩
  | .prerun i nowMs =>
    match w.executions[i]? with
    | none => none
    | some x =>
      if x.started then none
      else some ⟨(onTaskPrerun w.sched (some x.sender) (some x.id) (some x.call.kwargs) nowMs).scheduler,
        w.executions.set i { x with started := true }⟩
  | .success i record nowMs assigned =>
    match w.executions[i]? with
    | none => none
    | some x =>
      if x.started then
        some (w.ended i (onTaskSuccess (returning record) w.sched (some x.sender) nowMs) assigned)
      else none
  | .failure i =>
    match w.executions[i]? with
    | none => none
    | some x => if x.started then some (w.ended i (onTaskFailure w.sched (some x.id)) "") else none
  | .revoked i =>
    match w.executions[i]? with
    | none => none
    | some x => if x.started then some (w.ended i (onTaskRevoked w.sched (some x.id)) "") else none

abbrev Steps : World Score Ranker → WorldEvent Score Ranker → World Score Ranker → Prop :=
  fun w event w' => w.step event = some w'

/-- An accepted submission brings an `apply_fn` that passes the registered id on to Celery, and an
execution that succeeds has a payload size that `int` accepts, or none. -/
def PassesId (w : World Score Ranker) : WorldEvent Score Ranker → Prop
  | .submit env uuid taskType payloadSize call taskId =>
    ∀ sub, acceptedBy env w.sched (.submit uuid taskType payloadSize call taskId) = some sub →
      call.taskId = some sub.taskId ∧ sub.taskId ≠ ""
  | .success i _ _ _ => ∀ x, w.executions[i]? = some x → ∃ n, x.call.kwargs.payload = .ok n
  | _ => True

omit [LinearOrder Score] [Zero Score] in
/-- The ids of the tasks that are held or executing. -/
def ids (w : World Score Ranker) : List String :=
  heldIds w.sched ++ w.executions.map Execution.id

omit [LinearOrder Score] [Zero Score] in
/-- The registry is exactly the held and the executing tasks, and every held task will execute under
its own id. -/
structure Tracked (w : World Score Ranker) : Prop where
  active : w.sched.mode = .active
  held : ∀ e ∈ w.sched.heap, e.applyFn.taskId = some e.taskId ∧ e.taskId ≠ ""
  executing : ∀ x ∈ w.executions, x.id ≠ ""
  registry : RegistryIs w.sched.registry w.ids

namespace Tracked
variable {w w' : World Score Ranker}

omit [LinearOrder Score] [Zero Score] in
theorem initial (ranker : Ranker) (stats : TypeStatsTracker) :
    Tracked (World.initial ranker stats : World Score Ranker) where
  active := rfl
  held _ he := absurd he List.not_mem_nil
  executing _ hx := absurd hx List.not_mem_nil
  registry := ⟨List.nodup_nil, fun _ => iff_of_false Finmap.notMem_empty List.not_mem_nil⟩

omit [LinearOrder Score] [Zero Score] in
/-- An execution ends and takes its registry entry with it. -/
theorem finish (h : Tracked w) {i : ℕ} {x : Execution} (hx : w.executions[i]? = some x)
    (stats : TypeStatsTracker) (ranker : Option Ranker) :
    Tracked (⟨{ w.sched with registry := w.sched.registry.erase x.id, stats := stats, ranker := ranker },
      w.executions.eraseIdx i⟩ : World Score Ranker) where
  active := h.active
  held := h.held
  executing y hy := h.executing y (List.mem_of_mem_eraseIdx hy)
  registry := by
    obtain ⟨hi, rfl⟩ := List.getElem?_eq_some_iff.mp hx
    have hperm : w.executions.Perm (w.executions[i] :: w.executions.eraseIdx i) :=
      (List.getElem_cons_eraseIdx_perm hi).symm
    have hids : w.ids.Perm
        (w.executions[i].id :: (heldIds w.sched ++ (w.executions.eraseIdx i).map Execution.id)) :=
      ((hperm.map Execution.id).append_left _).trans List.perm_middle
    exact (h.registry.perm hids).erase

omit [Zero Score] in
/-- A `dispatch_next` turns the least held task into an execution under the same id. -/
theorem dispatch (h : Tracked w)
    (record : Ranker → RecordCall → Ranker × Except PyException Unit) (assigned : String) :
    Tracked (⟨(dispatchHeld (returning record) w.sched).scheduler,
      w.executions ++ (dispatchHeld (returning record) w.sched).dispatched.toList.map
        (executionOf assigned)⟩ : World Score Ranker) := by
  rw [dispatchHeld_eq, LearnedScheduler.pop]
  cases hleast : extractLeast HeapEntry.key w.sched.heap with
  | none => simpa using h
  | some p =>
    obtain ⟨e, rest⟩ := p
    have hperm : w.sched.heap.Perm (e :: rest) := extractLeast_perm _ hleast
    obtain ⟨hpasses, hne⟩ := h.held e (hperm.mem_iff.mpr List.mem_cons_self)
    have hid : (executionOf assigned e).id = e.taskId := by simp [executionOf, hpasses]
    refine ⟨h.active, fun e' he' => h.held e' (hperm.mem_iff.mpr (List.mem_cons_of_mem e he')), ?_, ?_⟩
    · intro x hx
      rcases List.mem_append.mp hx with hx | hx
      · exact h.executing x hx
      · obtain rfl : x = executionOf assigned e := by simpa [returning] using hx
        rw [hid]
        exact hne
    · have hids : w.ids.Perm (rest.map HeapEntry.taskId ++
          (w.executions ++ [executionOf assigned e]).map Execution.id) := by
        refine ((hperm.map HeapEntry.taskId).append_right _).trans ?_
        rw [List.map_append, List.map_singleton, hid, ← List.append_assoc]
        exact (List.perm_append_singleton _ _).symm
      exact h.registry.perm hids

omit [LinearOrder Score] [Zero Score] in
/-- `record_start` of a registered id registers nothing new. -/
theorem prerun (h : Tracked w) {i : ℕ} {x : Execution} (hx : w.executions[i]? = some x) (nowMs : ℚ) :
    Tracked (⟨(onTaskPrerun w.sched (some x.sender) (some x.id) (some x.call.kwargs) nowMs).scheduler,
      w.executions.set i { x with started := true }⟩ : World Score Ranker) := by
  obtain ⟨hi, rfl⟩ := List.getElem?_eq_some_iff.mp hx
  have hne : w.executions[i].id ≠ "" := h.executing _ (List.getElem_mem hi)
  have hexec : (w.executions.set i { w.executions[i] with started := true }).map Execution.id =
      w.executions.map Execution.id := by
    refine List.ext_getElem? fun j => ?_
    rw [List.getElem?_map, List.getElem?_map, List.getElem?_set]
    by_cases hj : i = j
    · subst hj
      simp [hi]
    · simp [hj]
  have hmem : w.executions[i].id ∈ w.ids :=
    List.mem_append_right _ (List.mem_map_of_mem (List.getElem_mem hi))
  have hexecuting : ∀ y ∈ w.executions.set i { w.executions[i] with started := true }, y.id ≠ "" := by
    intro y hy
    have hid : y.id ∈ w.executions.map Execution.id := hexec ▸ List.mem_map_of_mem hy
    obtain ⟨z, hz, hzy⟩ := List.mem_map.mp hid
    exact hzy ▸ h.executing z hz
  unfold onTaskPrerun
  dsimp only
  split
  · refine ⟨h.active, h.held, hexecuting, ?_⟩
    simpa only [ids, hexec] using h.registry
  · rw [truthyId_some hne]
    obtain ⟨hmode, hheap, -⟩ := recordStart_frame w.sched w.executions[i].id
      (((some w.executions[i].call.kwargs).getD ⟨none, none⟩).taskType.getD
        (((some w.executions[i].sender).map Sender.name).getD "unknown")) ‹ℤ› nowMs
    refine ⟨hmode.trans h.active, ?_, hexecuting, ?_⟩
    · rw [hheap]
      exact h.held
    · simp only [ids, heldIds, hheap, hexec]
      unfold LearnedScheduler.recordStart
      split <;> exact h.registry.overwrite hmem _

omit [Zero Score] in
/-- A success with a usable payload size completes its task and dispatches the next. -/
theorem success (h : Tracked w) {i : ℕ} {x : Execution} (hx : w.executions[i]? = some x)
    {n : ℤ} (hpayload : x.call.kwargs.payload = .ok n)
    (record : Ranker → RecordCall → Ranker × Except PyException Unit) (nowMs : ℚ) (assigned : String) :
    Tracked (w.ended i (onTaskSuccess (returning record) w.sched (some x.sender) nowMs) assigned) := by
  have hne : x.id ≠ "" := h.executing x (List.mem_of_getElem? hx)
  obtain ⟨stats, ranker, -, hdone⟩ := recordCompletion_scheduler record w.sched x.id x.call.name n nowMs
  have hfinish := h.finish hx stats ranker
  rw [← hdone] at hfinish
  unfold ended Execution.sender
  rw [onTaskSuccess_eq _ w.sched x.call.name hne x.call.kwargs hpayload nowMs]
  dsimp only
  split
  · simpa [returning] using hfinish
  · have hactive : (w.sched.recordCompletion (returning record).record x.id x.call.name n
        nowMs).scheduler.mode = .active := hfinish.active
    rw [if_pos hactive]
    exact hfinish.dispatch record assigned

omit [LinearOrder Score] [Zero Score] in
/-- A failed or revoked execution is cleaned up. -/
theorem failure (h : Tracked w) {i : ℕ} {x : Execution} (hx : w.executions[i]? = some x) :
    Tracked (w.ended i (onTaskFailure w.sched (some x.id)) "") := by
  have hne : x.id ≠ "" := h.executing x (List.mem_of_getElem? hx)
  have hfinish := h.finish hx w.sched.stats w.sched.ranker
  simpa [ended, onTaskFailure, truthyId_some hne, LearnedScheduler.cleanupRegistry] using hfinish

theorem submit (h : Tracked w) (env : CallEnv Score AsyncCall Ranker) (uuid taskType : String)
    (payloadSize : ℤ) (call : AsyncCall) (taskId : Option String)
    (hpasses : w.PassesId (.submit env uuid taskType payloadSize call taskId)) :
    Tracked { w with sched := after env w.sched (.submit uuid taskType payloadSize call taskId) } := by
  have heffect := call_effect env w.sched (.submit uuid taskType payloadSize call taskId)
  simp only [PassesId] at hpasses
  generalize after env w.sched (.submit uuid taskType payloadSize call taskId) = s' at heffect ⊢
  generalize acceptedBy env w.sched (.submit uuid taskType payloadSize call taskId) = accepted
    at heffect hpasses
  cases heffect with
  | notHeld => exact h
  | held hmode hfresh =>
    refine ⟨h.active, fun e he => ?_, h.executing, h.registry.insert hfresh _⟩
    rcases List.mem_cons.mp he with rfl | he
    · exact hpasses _ rfl
    · exact h.held e he

omit [LinearOrder Score] [Zero Score] in
/-- A signal that ends an execution comes from one at its position. -/
theorem exists_emitter {o : Option Execution} {f : Execution → World Score Ranker}
    (h : (match o with
      | none => none
      | some x => if x.started then some (f x) else none) = some w') :
    ∃ x, o = some x ∧ f x = w' := by
  cases o with
  | none => cases h
  | some x =>
    refine ⟨x, rfl, ?_⟩
    dsimp only at h
    split at h
    · exact Option.some.inj h
    · cases h

theorem step (h : Tracked w) {event : WorldEvent Score Ranker} (hstep : w.step event = some w')
    (hpasses : w.PassesId event) : Tracked w' := by
  cases event with
  | submit env uuid taskType payloadSize call taskId =>
    cases hstep
    exact h.submit env uuid taskType payloadSize call taskId hpasses
  | dispatchNext assigned =>
    cases hstep
    exact h.dispatch _ assigned
  | prerun i nowMs =>
    simp only [World.step] at hstep
    split at hstep
    · cases hstep
    · next x hx =>
      split at hstep
      · cases hstep
      · cases hstep
        exact h.prerun hx nowMs
  | success i record nowMs assigned =>
    obtain ⟨x, hx, rfl⟩ := exists_emitter hstep
    obtain ⟨n, hpayload⟩ := hpasses x hx
    exact h.success hx hpayload record nowMs assigned
  | failure i =>
    obtain ⟨x, hx, rfl⟩ := exists_emitter hstep
    exact h.failure hx
  | revoked i =>
    obtain ⟨x, hx, rfl⟩ := exists_emitter hstep
    exact h.failure hx

end Tracked

/-! ## Runs -/

/-- In every run in which each accepted task executes under the id it was registered with: the registry
is at all times exactly the tasks held or executing, so it is empty once there are none. -/
theorem registry_does_not_leak (ranker : Ranker) (stats : TypeStatsTracker)
    {events : List (WorldEvent Score Ranker)} {w : World Score Ranker}
    (h : Run (Guarded PassesId Steps) (World.initial ranker stats) events w) :
    (∀ id, id ∈ w.sched.registry ↔ id ∈ w.ids) ∧
      (w.sched.heap = [] → w.executions = [] → w.sched.registry = ∅) := by
  have htracked : Tracked w := by
    refine h.preserves (P := Tracked) ?_ (Tracked.initial ranker stats)
    intro u event v hstep hu
    exact hu.step hstep.1 hstep.2
  refine ⟨htracked.registry.mem_iff, fun hheap hexec => ?_⟩
  have hregistry := htracked.registry
  rw [ids, heldIds, hheap, hexec] at hregistry
  exact hregistry.eq_empty

/-! ## The quickstart -/

/-- `my_task.apply_async(kwargs=...)`, with or without `task_id=...`. -/
def myTask (taskId : Option String) : AsyncCall :=
  ⟨"tasks.my_task", quickstartKwargs "resize" 1024, taskId⟩

def noRecord (ranker : Unit) (_ : RecordCall) : Unit × Except PyException Unit := (ranker, .ok ())

/-- One task from its submission to its success, for a given `apply_fn`; Celery would assign the id
"c1". -/
def oneTask (passed : Option String) : List (WorldEvent ℕ Unit) :=
  [.submit ⟨⟨noRecord, fun _ => .ok ()⟩, fun _ _ _ => .ok 0⟩ "u0" "resize" 1024 (myTask passed) none,
    .dispatchNext "c1", .prerun 0 0, .success 0 noRecord 5 "c2"]

/-- The world after `oneTask`. -/
def oneTaskDone (passed : Option String) : World ℕ Unit :=
  ((exec World.step (World.initial () (.new 100)) (oneTask passed)).getD (World.initial () (.new 100)))

theorem oneTask_run {passed : Option String}
    (h : (exec World.step (World.initial () (.new 100)) (oneTask passed)).isSome) :
    Run Steps (World.initial () (.new 100)) (oneTask passed) (oneTaskDone passed) := by
  obtain ⟨w, hw⟩ := Option.isSome_iff_exists.mp h
  have hdone : oneTaskDone passed = w := by
    rw [oneTaskDone, hw]
    rfl
  rw [hdone]
  exact run_of_exec hw

theorem payload_of_all {x? : Option Execution}
    (h : x?.all (fun x => x.call.kwargs.payload.isOk) = true) :
    ∀ x, x? = some x → ∃ n, x.call.kwargs.payload = .ok n := by
  rintro x rfl
  rw [Option.all_some] at h
  cases hpayload : x.call.kwargs.payload with
  | error exc =>
    rw [hpayload] at h
    cases h
  | ok n => exact ⟨n, rfl⟩

theorem oneTask_passes_id :
    Run (Guarded PassesId Steps) (World.initial () (.new 100)) (oneTask (some "u0"))
      (oneTaskDone (some "u0")) := by
  refine EveryStep.guarded ?_ (oneTask_run (by decide +kernel))
  have hdet : ∀ (w : World ℕ Unit) event t t', Steps w event t → Steps w event t' → t = t' :=
    fun _ _ _ _ h h' => Option.some.inj (h.symm.trans h')
  have hsome : ∀ {w : World ℕ Unit} {event} (h : (w.step event).isSome), Steps w event _ :=
    fun h => (Option.some_get h).symm
  refine (everyStep_cons_iff hdet rfl).mpr ⟨?_, (everyStep_cons_iff hdet rfl).mpr ⟨trivial,
    (everyStep_cons_iff hdet (hsome (by decide +kernel))).mpr ⟨trivial,
      (everyStep_cons_iff hdet (hsome (by decide +kernel))).mpr ⟨?_, everyStep_nil⟩⟩⟩⟩
  · intro sub hsub
    rw [acceptedBy] at hsub
    split at hsub
    · split at hsub
      · cases hsub
      · cases hsub
        exact ⟨rfl, show "u0" ≠ "" by decide⟩
    · cases hsub
  · exact payload_of_all (by decide +kernel)

theorem registry_does_not_leak_oneTask : (oneTaskDone (some "u0")).sched.registry = ∅ :=
  (registry_does_not_leak () (.new 100) oneTask_passes_id).2 (List.isEmpty_iff.mp (by decide +kernel))
    (List.isEmpty_iff.mp (by decide +kernel))

/-- The task of the quickstart, whose id Celery assigns, leaves its entry "u0" behind. -/
theorem quickstart_leaks_entry :
    ¬ ∀ (events : List (WorldEvent ℕ Unit)) (w : World ℕ Unit),
      Run Steps (World.initial () (.new 100)) events w →
        w.sched.heap = [] → w.executions = [] → w.sched.registry = ∅ := by
  intro hall
  have hempty := hall (oneTask none) (oneTaskDone none) (oneTask_run (by decide +kernel))
    (List.isEmpty_iff.mp (by decide +kernel)) (List.isEmpty_iff.mp (by decide +kernel))
  have hleft : "u0" ∈ (oneTaskDone none).sched.registry := by decide +kernel
  rw [hempty] at hleft
  exact Finmap.notMem_empty hleft

end World

end Chronoq.Celery
