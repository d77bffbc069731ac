import Chronoq.Foundations.Transition
import Chronoq.Celery.Signals

/-! # The chain of dispatches that the signals drive

After a first `dispatch_next` nothing but `task_success` dispatches a held task. A `Chain` is an
active-mode scheduler together with the dispatched tasks that have not terminated yet; its events
are submissions and the four signals, in any order, each terminating signal taking one task out of
flight. An exception of a handler is swallowed, so the chain goes on with the scheduler it left.

The chain is *alive* while it holds no task or has one in flight. It can die in three ways: the last
task in flight fails or is revoked, its success handler raises, or a task is submitted when nothing
is in flight. `KeepsAlive` is the condition on a state and an event that rules these out, and
`dispatch_chain_alive_iff` says that there is no other way. -/

namespace Chronoq.Celery
open Foundations Ranker

set_option autoImplicit false

variable {Score ApplyFn Ranker : Type}

/-! ## States and events -/

/-- A scheduler and the dispatched tasks that have emitted no terminating signal. -/
structure Chain (Score ApplyFn Ranker : Type) where
  sched : LearnedScheduler Score ApplyFn Ranker
  inFlight : List (HeapEntry Score ApplyFn)

/-- A submission or a signal. Terminating signals name the task by its position in flight. -/
inductive ChainEvent (Score ApplyFn Ranker : Type)
  | submit (sub : Submission Score ApplyFn)
  | prerun (sender : Option Sender) (taskId : Option String) (kwargs : Option TaskKwargs)
      (nowMs : ℚ)
  | success (i : ℕ) (env : HandlerEnv ApplyFn Ranker) (sender : Option Sender) (nowMs : ℚ)
  | failure (i : ℕ) (taskId : Option String)
  | revoked (i : ℕ) (requestId : Option String)

namespace Chain

/-- Task `i` terminates with the signal whose handler ended in `handled`. -/
def terminate (c : Chain Score ApplyFn Ranker) (i : ℕ) (handled : Handled Score ApplyFn Ranker) :
    Option (Chain Score ApplyFn Ranker) :=
  if i < c.inFlight.length then
    some ⟨handled.scheduler, c.inFlight.eraseIdx i ++ handled.dispatched.toList⟩
  else none

variable [LinearOrder Score]

def step (c : Chain Score ApplyFn Ranker) :
    ChainEvent Score ApplyFn Ranker → Option (Chain Score ApplyFn Ranker)
  | .submit sub =>
    match c.sched.push sub with
    | .ok (s', _) => some { c with sched := s' }
    | .error _ => some c
  | .prerun sender taskId kwargs nowMs =>
    some { c with sched := (onTaskPrerun c.sched sender taskId kwargs nowMs).scheduler }
  | .success i env sender nowMs => c.terminate i (onTaskSuccess env c.sched sender nowMs)
  | .failure i taskId => c.terminate i (onTaskFailure c.sched taskId)
  | .revoked i requestId => c.terminate i (onTaskRevoked c.sched requestId)

abbrev Steps : Chain Score ApplyFn Ranker → ChainEvent Score ApplyFn Ranker →
    Chain Score ApplyFn Ranker → Prop :=
  fun c event c' => c.step event = some c'

/-- Nothing is held, or something is in flight. -/
def Alive (c : Chain Score ApplyFn Ranker) : Prop :=
  c.sched.mode = .active ∧ (c.sched.heap ≠ [] → c.inFlight ≠ [])

/-- An event that cannot stop the chain: of terminating signals those of a task that is not the last
in flight, those that leave nothing held, and a success whose handler raises nothing; a submission
while a task is in flight, or a refused one. -/
def KeepsAlive (c : Chain Score ApplyFn Ranker) : ChainEvent Score ApplyFn Ranker → Prop
  | .submit sub => sub.taskId ∈ c.sched.registry ∨ c.inFlight ≠ []
  | .prerun _ _ _ _ => True
  | .success _ env sender nowMs =>
    2 ≤ c.inFlight.length ∨ (onTaskSuccess env c.sched sender nowMs).scheduler.heap = [] ∨
      (onTaskSuccess env c.sched sender nowMs).raised = none
  | .failure _ _ => 2 ≤ c.inFlight.length ∨ c.sched.heap = []
  | .revoked _ _ => 2 ≤ c.inFlight.length ∨ c.sched.heap = []

/-! ## Terminating signals -/

omit [LinearOrder Score] in
theorem terminate_spec {c c' : Chain Score ApplyFn Ranker} {i : ℕ}
    {handled : Handled Score ApplyFn Ranker} (h : c.terminate i handled = some c') :
    c'.sched = handled.scheduler ∧
      c'.inFlight.length + 1 = c.inFlight.length + handled.dispatched.toList.length := by
  unfold terminate at h
  split at h
  · next hi =>
    cases h
    refine ⟨rfl, ?_⟩
    have herase := List.length_eraseIdx_of_lt hi
    rw [List.length_append, herase]
    omega
  · cases h

omit [LinearOrder Score] in
/-- A terminating signal in active mode keeps the chain alive exactly when it leaves nothing held,
or another task in flight, or a task dispatched. -/
theorem terminate_alive_iff {c c' : Chain Score ApplyFn Ranker} {i : ℕ}
    {handled : Handled Score ApplyFn Ranker} (h : c.terminate i handled = some c')
    (hmode : handled.scheduler.mode = .active) :
    c'.Alive ↔ 2 ≤ c.inFlight.length ∨ handled.scheduler.heap = [] ∨ handled.dispatched ≠ none := by
  obtain ⟨hsched, hlength⟩ := terminate_spec h
  have hpos : c'.inFlight ≠ [] ↔ 2 ≤ c.inFlight.length ∨ handled.dispatched ≠ none := by
    rw [← List.length_pos_iff]
    cases hd : handled.dispatched with
    | none =>
      rw [hd] at hlength
      simp only [Option.toList_none, List.length_nil] at hlength
      simp only [ne_eq, not_true_eq_false, or_false]
      omega
    | some e =>
      rw [hd] at hlength
      simp only [Option.toList_some, List.length_singleton] at hlength
      simp only [ne_eq, reduceCtorEq, not_false_eq_true, or_true, iff_true]
      unfold terminate at h
      split at h
      · omega
      · cases h
  unfold Alive
  rw [hsched, hpos]
  by_cases hheap : handled.scheduler.heap = [] <;> simp [hmode, hheap]

/-- A success whose handler raises nothing dispatches the least entry held, if there is one, and
then as many tasks are in flight as before. -/
theorem success_dispatches {c c' : Chain Score ApplyFn Ranker} {i : ℕ}
    {env : HandlerEnv ApplyFn Ranker} {sender : Option Sender} {nowMs : ℚ}
    (hmode : c.sched.mode = .active) (h : c.step (.success i env sender nowMs) = some c')
    (hraised : (onTaskSuccess env c.sched sender nowMs).raised = none) :
    (c.sched.heap = [] ∧ c'.sched.heap = [] ∧ c'.inFlight = c.inFlight.eraseIdx i) ∨
      ∃ e, c.sched.heap.Perm (e :: c'.sched.heap) ∧ (∀ e' ∈ c.sched.heap, e.key ≤ e'.key) ∧
        c'.inFlight = c.inFlight.eraseIdx i ++ [e] ∧ c'.inFlight.length = c.inFlight.length := by
  obtain ⟨s', hheap, hhandled⟩ := onTaskSuccess_dispatches hmode hraised
  rw [hhandled] at hraised
  have hlength := (terminate_spec h).2
  simp only [step, terminate, hhandled] at h hlength
  split at h
  · cases h
    dsimp only at hlength ⊢
    rcases dispatchHeld_spec hraised with ⟨hempty, hempty', hnone⟩ | ⟨e, hperm, hleast, hsome⟩
    · rw [hheap] at hempty
      refine .inl ⟨hempty, hempty', ?_⟩
      rw [hnone, Option.toList_none, List.append_nil]
    · rw [hheap] at hperm hleast
      refine .inr ⟨e, hperm, hleast, by rw [hsome, Option.toList_some], ?_⟩
      rw [hsome, Option.toList_some, List.length_singleton] at hlength
      rw [hsome, Option.toList_some]
      omega
  · cases h

/-- A failure and a revocation dispatch nothing, and one task fewer is in flight. The registry loses the
entry of the task that the signal names, and no other. -/
theorem failure_dispatches_nothing {c c' : Chain Score ApplyFn Ranker} {i : ℕ}
    {taskId : Option String}
    (h : c.step (.failure i taskId) = some c' ∨ c.step (.revoked i taskId) = some c') :
    c'.sched.heap = c.sched.heap ∧ c'.inFlight.length + 1 = c.inFlight.length ∧
      ∀ id, c'.sched.registry.lookup id =
        if truthyId taskId = some id then none else c.sched.registry.lookup id := by
  have hterm : c.terminate i (onTaskFailure c.sched taskId) = some c' := h.elim id id
  obtain ⟨hheap, -, hnone⟩ := onTaskFailure_heap c.sched taskId
  obtain ⟨hsched, hlength⟩ := terminate_spec hterm
  rw [hnone] at hlength
  refine ⟨hsched ▸ hheap, by simpa using hlength, fun id => ?_⟩
  rw [hsched]
  exact onTaskFailure_registry c.sched taskId id

/-! ## One event -/

omit [LinearOrder Score] in
theorem push_alive_iff {c : Chain Score ApplyFn Ranker} {sub : Submission Score ApplyFn}
    {s' : LearnedScheduler Score ApplyFn Ranker} {e : HeapEntry Score ApplyFn}
    (h : c.sched.push sub = .ok (s', e)) (hmode : c.sched.mode = .active) :
    Alive { c with sched := s' } ↔ c.inFlight ≠ [] := by
  unfold LearnedScheduler.push at h
  split at h
  · cases h
  · cases h
    simp [Alive, hmode]

/-- The chain stays alive over one event exactly when the event meets `KeepsAlive`. -/
theorem step_alive_iff {c c' : Chain Score ApplyFn Ranker}
    {event : ChainEvent Score ApplyFn Ranker} (h : c.step event = some c') (halive : c.Alive) :
    c'.Alive ↔ c.KeepsAlive event := by
  have hmode := halive.1
  cases event with
  | submit sub =>
    simp only [step] at h
    cases hpush : c.sched.push sub with
    | error exc =>
      rw [hpush] at h
      cases h
      have hin : sub.taskId ∈ c.sched.registry := by
        unfold LearnedScheduler.push at hpush
        split at hpush
        · assumption
        · cases hpush
      simp [KeepsAlive, halive, hin]
    | ok p =>
      rw [hpush] at h
      cases h
      have hnotin : sub.taskId ∉ c.sched.registry := by
        unfold LearnedScheduler.push at hpush
        split at hpush
        · cases hpush
        · assumption
      rw [push_alive_iff hpush hmode]
      simp [KeepsAlive, hnotin]
  | prerun sender taskId kwargs nowMs =>
    cases h
    obtain ⟨hheap, hmode'⟩ := onTaskPrerun_heap c.sched sender taskId kwargs nowMs
    simp only [Alive, KeepsAlive, hheap, hmode', iff_true]
    exact halive
  | success i env sender nowMs =>
    rw [terminate_alive_iff h ((onTaskSuccess_mode env c.sched sender nowMs).trans hmode)]
    have hended : (onTaskSuccess env c.sched sender nowMs).scheduler.heap = [] ∨
        (onTaskSuccess env c.sched sender nowMs).dispatched ≠ none ↔
      (onTaskSuccess env c.sched sender nowMs).scheduler.heap = [] ∨
        (onTaskSuccess env c.sched sender nowMs).raised = none :=
      onTaskSuccess_empty_or_dispatched env c.sched sender nowMs hmode
    rw [hended]
    rfl
  | failure i taskId =>
    obtain ⟨hheap, hmode', hnone⟩ := onTaskFailure_heap c.sched taskId
    rw [terminate_alive_iff h (hmode'.trans hmode), hheap, hnone]
    simp [KeepsAlive]
  | revoked i requestId =>
    obtain ⟨hheap, hmode', hnone⟩ := onTaskRevoked_heap c.sched requestId
    rw [terminate_alive_iff h (hmode'.trans hmode), hheap, hnone]
    simp [KeepsAlive]

theorem step_mode {c c' : Chain Score ApplyFn Ranker} {event : ChainEvent Score ApplyFn Ranker}
    (h : c.step event = some c') : c'.sched.mode = c.sched.mode := by
  cases event with
  | submit sub =>
    simp only [step, LearnedScheduler.push] at h
    split at h
    · next hpush =>
      split at hpush
      · cases hpush
      · cases hpush
        cases h
        rfl
    · cases h
      rfl
  | prerun sender taskId kwargs nowMs =>
    cases h
    exact (onTaskPrerun_heap c.sched sender taskId kwargs nowMs).2
  | success i env sender nowMs =>
    rw [(terminate_spec h).1]
    exact onTaskSuccess_mode env c.sched sender nowMs
  | failure i taskId =>
    rw [(terminate_spec h).1]
    exact (onTaskFailure_heap c.sched taskId).2.1
  | revoked i requestId =>
    rw [(terminate_spec h).1]
    exact (onTaskRevoked_heap c.sched requestId).2.1

omit [LinearOrder Score] in
theorem Steps.unique [LinearOrder Score] (c : Chain Score ApplyFn Ranker)
    (event : ChainEvent Score ApplyFn Ranker) (c' c'' : Chain Score ApplyFn Ranker)
    (h : Steps c event c') (h' : Steps c event c'') : c' = c'' :=
  Option.some.inj (h.symm.trans h')

/-- From an active-mode chain on, being alive is a matter of heap and flight alone. -/
theorem throughout_alive_iff {c : Chain Score ApplyFn Ranker}
    {events : List (ChainEvent Score ApplyFn Ranker)} (hmode : c.sched.mode = .active) :
    Throughout Steps (fun c => c.sched.heap ≠ [] → c.inFlight ≠ []) c events ↔
      Throughout Steps Alive c events := by
  constructor
  · intro hall before after c' hsplit hrun
    refine ⟨?_, hall before after c' hsplit hrun⟩
    refine hrun.preserves (P := fun c => c.sched.mode = .active) ?_ hmode
    intro c event c' hstep hc
    exact (step_mode hstep).trans hc
  · intro hall before after c' hsplit hrun
    exact (hall before after c' hsplit hrun).2

/-- The chain that one `dispatch_next` starts. -/
def start (env : HandlerEnv ApplyFn Ranker) (s : LearnedScheduler Score ApplyFn Ranker) :
    Chain Score ApplyFn Ranker :=
  ⟨(dispatchHeld env s).scheduler, (dispatchHeld env s).dispatched.toList⟩

theorem start_alive {env : HandlerEnv ApplyFn Ranker} {s : LearnedScheduler Score ApplyFn Ranker}
    (hmode : s.mode = .active) (hheld : s.heap ≠ [])
    (hfirst : (dispatchHeld env s).raised = none) : (start env s).Alive := by
  refine ⟨(dispatchHeld_mode env s).trans hmode, fun _ => ?_⟩
  rcases dispatchHeld_spec hfirst with ⟨hempty, -, -⟩ | ⟨e, -, -, hsome⟩
  · exact absurd hempty hheld
  · simp [start, hsome]

end Chain

/-! ## Whole runs -/

/-- A chain started by one `dispatch_next` on a nonempty heap stays alive through a run exactly when
every event of the run meets `KeepsAlive`. At each state of the run a success whose handler raises
nothing dispatches the least entry held, if there is one; a success whose handler raises dispatches
nothing; a failure or a revocation leaves the heap as it is, dispatches nothing and takes the task that
it names out of the registry. -/
theorem dispatch_chain_alive_iff {env : HandlerEnv ApplyFn Ranker} [LinearOrder Score]
    {s : LearnedScheduler Score ApplyFn Ranker} (hmode : s.mode = .active) (hheld : s.heap ≠ [])
    (hfirst : (dispatchHeld env s).raised = none)
    {events : List (ChainEvent Score ApplyFn Ranker)} {c : Chain Score ApplyFn Ranker}
    (h : Run Chain.Steps (Chain.start env s) events c) :
    (Throughout Chain.Steps (fun c => c.sched.heap ≠ [] → c.inFlight ≠ []) (Chain.start env s)
        events ↔ EveryStep Chain.Steps Chain.KeepsAlive (Chain.start env s) events) ∧
      (∀ i env sender nowMs c', c.step (.success i env sender nowMs) = some c' →
        ((onTaskSuccess env c.sched sender nowMs).raised = none →
          (c.sched.heap = [] ∧ c'.sched.heap = [] ∧ c'.inFlight = c.inFlight.eraseIdx i) ∨
            ∃ e, c.sched.heap.Perm (e :: c'.sched.heap) ∧ (∀ e' ∈ c.sched.heap, e.key ≤ e'.key) ∧
              c'.inFlight = c.inFlight.eraseIdx i ++ [e] ∧
              c'.inFlight.length = c.inFlight.length) ∧
        ((onTaskSuccess env c.sched sender nowMs).raised ≠ none →
          c'.inFlight.length + 1 = c.inFlight.length)) ∧
      ∀ i taskId c', c.step (.failure i taskId) = some c' ∨ c.step (.revoked i taskId) = some c' →
        c'.sched.heap = c.sched.heap ∧ c'.inFlight.length + 1 = c.inFlight.length ∧
          ∀ id, c'.sched.registry.lookup id =
            if truthyId taskId = some id then none else c.sched.registry.lookup id := by
  have hactive : c.sched.mode = .active := by
    refine h.preserves (P := fun c => c.sched.mode = .active) ?_ (Chain.start_alive hmode hheld hfirst).1
    intro c event c' hstep hc
    exact (Chain.step_mode hstep).trans hc
  refine ⟨?_, fun i env sender nowMs c' hstep => ⟨Chain.success_dispatches hactive hstep, ?_⟩,
    fun i taskId c' => Chain.failure_dispatches_nothing⟩
  · rw [← throughout_iff_everyStep Chain.Steps.unique (fun _ _ _ => Chain.step_alive_iff) h
      (Chain.start_alive hmode hheld hfirst)]
    exact Chain.throughout_alive_iff (Chain.start_alive hmode hheld hfirst).1
  · intro hraised
    obtain ⟨exc, hexc⟩ := Option.ne_none_iff_exists'.mp hraised
    have hlength := (Chain.terminate_spec hstep).2
    rw [onTaskSuccess_raised hexc] at hlength
    simpa using hlength

/-! ## A chain that stops -/

/-- A scheduler that holds two tasks. -/
def twoHeld : LearnedScheduler ℕ ℕ Unit where
  mode := .active
  ranker := some ()
  stats := .new 100
  heap := [⟨2, 1, 1, "b"⟩, ⟨1, 0, 0, "a"⟩]
  arrivalCounter := 2
  registry := ((∅ : Dict String RegistryEntry).insert "a" ⟨"resize", 512, none⟩).insert "b"
    ⟨"transcode", 1024, none⟩

/-- `record` and every `apply_fn` succeed. -/
def calmEnv : HandlerEnv ℕ Unit := ⟨fun r _ => (r, .ok ()), fun _ => .ok ()⟩

theorem dispatch_chain_of_two :
    Throughout Chain.Steps (fun c => c.sched.heap ≠ [] → c.inFlight ≠ []) (Chain.start calmEnv twoHeld)
        [.success 0 calmEnv (some ⟨"resize", some "a", some ⟨none, none⟩⟩) 5] ↔
      EveryStep Chain.Steps Chain.KeepsAlive (Chain.start calmEnv twoHeld)
        [.success 0 calmEnv (some ⟨"resize", some "a", some ⟨none, none⟩⟩) 5] :=
  (dispatch_chain_alive_iff rfl (by decide) rfl (.single rfl)).1

/-- The first task dispatched fails, and the second one is held with nothing in flight. -/
theorem failed_task_stops_chain :
    ¬ ∀ (subs events : List (ChainEvent ℕ ℕ Unit)) (s : LearnedScheduler ℕ ℕ Unit) (c : Chain ℕ ℕ Unit),
      Run Chain.Steps ⟨.new .active () (.new 100), []⟩ subs ⟨s, []⟩ → s.heap ≠ [] →
      (dispatchHeld calmEnv s).raised = none → Run Chain.Steps (Chain.start calmEnv s) events c →
      c.sched.heap ≠ [] → c.inFlight ≠ [] := by
  intro hall
  have hsubs : Run Chain.Steps ⟨.new .active () (.new 100), []⟩
      [.submit ⟨"a", "resize", 512, 0, 1⟩, .submit ⟨"b", "transcode", 1024, 1, 2⟩]
      ⟨twoHeld, []⟩ := .cons rfl (.single rfl)
  have hfails : Run Chain.Steps (Chain.start calmEnv twoHeld) [.failure 0 (some "a")]
      ⟨(onTaskFailure (Chain.start calmEnv twoHeld).sched (some "a")).scheduler, []⟩ := .single rfl
  exact hall _ _ _ _ hsubs (by decide) rfl hfails (by decide) rfl

end Chronoq.Celery
