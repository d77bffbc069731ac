import Chronoq.Foundations.Receivers
import Chronoq.Celery.Telemetry

/-! # `attach_signals`: who receives the signals

`attach_signals` defines four local functions and connects each with `@signal.connect`, that is weakly.
`_SignalHandlers` of `toggle_demo.py` keeps the same four functions in attributes and connects them with
`weak=False`. Once `attach_signals` has returned nothing refers to its functions any more, and no later
signal reaches the scheduler (`attachSignals_ignored`); after `signalHandlersInit` the scheduler is the
fold of the handlers over the signals (`signalHandlersInit_fold`). -/

namespace Chronoq.Celery
open Foundations Ranker

set_option autoImplicit false

variable {Score ApplyFn Ranker : Type}

/-! ## Signals and their handlers -/

/-- The four signals; each of the four handlers is named by the signal it is connected to. -/
inductive SignalKind
  | taskPrerun
  | taskSuccess
  | taskFailure
  | taskRevoked
  deriving DecidableEq, Repr

/-- A signal with what it carries, and the clock at the time its handler runs. -/
inductive Signal
  | taskPrerun (sender : Option Sender) (taskId : Option String) (kwargs : Option TaskKwargs)
      (nowMs : ℚ)
  | taskSuccess (sender : Option Sender) (nowMs : ℚ)
  | taskFailure (taskId : Option String)
  | taskRevoked (requestId : Option String)

def Signal.kind : Signal → SignalKind
  | .taskPrerun _ _ _ _ => .taskPrerun
  | .taskSuccess _ _ => .taskSuccess
  | .taskFailure _ => .taskFailure
  | .taskRevoked _ => .taskRevoked

section Handlers
variable [LinearOrder Score]

/-- The handler of a signal, with what an `apply_fn` acts on outside the scheduler. -/
def handleIn {World : Type} (record : Ranker → RecordCall → Ranker × Except PyException Unit)
    (apply : ApplyFn → World → World × Except PyException Unit)
    (s : LearnedScheduler Score ApplyFn Ranker) (world : World) :
    Signal → Handled Score ApplyFn Ranker × World
  | .taskPrerun sender taskId kwargs nowMs => (onTaskPrerun s sender taskId kwargs nowMs, world)
  | .taskSuccess sender nowMs => onTaskSuccessIn record apply s world sender nowMs
  | .taskFailure taskId => (onTaskFailure s taskId, world)
  | .taskRevoked requestId => (onTaskRevoked s requestId, world)

/-- The handler of a signal. -/
def handle (env : HandlerEnv ApplyFn Ranker) (s : LearnedScheduler Score ApplyFn Ranker)
    (signal : Signal) : Handled Score ApplyFn Ranker :=
  (handleIn env.record env.applyAlone s () signal).1

/-- A scheduler and the tasks dispatched by handlers so far. -/
structure Attached (Score ApplyFn Ranker : Type) where
  sched : LearnedScheduler Score ApplyFn Ranker
  dispatched : List (HeapEntry Score ApplyFn)

/-- Run the handler of `a`; its exception, if any, is swallowed. -/
def Attached.handle (st : Attached Score ApplyFn Ranker) (a : HandlerEnv ApplyFn Ranker × Signal) :
    Attached Score ApplyFn Ranker :=
  let handled := Celery.handle a.1 st.sched a.2
  ⟨handled.scheduler, st.dispatched ++ handled.dispatched.toList⟩

/-- Handler `f` receives signal `a`. -/
def deliver (f : SignalKind) (st : Attached Score ApplyFn Ranker)
    (a : HandlerEnv ApplyFn Ranker × Signal) : Attached Score ApplyFn Ranker :=
  if f = a.2.kind then st.handle a else st

/-- The fold of the four handlers over a sequence of signals. -/
def foldHandlers (st : Attached Score ApplyFn Ranker)
    (signals : List (HandlerEnv ApplyFn Ranker × Signal)) : Attached Score ApplyFn Ranker :=
  signals.foldl Attached.handle st

/-- What the process does with a sequence of signals. -/
def sendSignals (w : Wiring SignalKind SignalKind) (st : Attached Score ApplyFn Ranker)
    (signals : List (HandlerEnv ApplyFn Ranker × Signal)) : Attached Score ApplyFn Ranker :=
  w.sendAll deliver (fun a => a.2.kind) st signals

end Handlers

/-! ## Two ways of connecting -/

/-- The four local functions, in the order of their definition. -/
def handlerFunctions : List SignalKind := [.taskPrerun, .taskSuccess, .taskFailure, .taskRevoked]

/-- `attach_signals`, after it has returned: each `@signal.connect` connects a local function. -/
def attachSignals : Wiring SignalKind SignalKind :=
  (handlerFunctions.foldl (fun (w : Wiring SignalKind SignalKind) f => (w.define f).connect f f true)
    Wiring.empty).leave

/-- `_SignalHandlers.__init__` of the demo, after it has returned: the functions are attributes of the
object, and they are connected with `weak=False`. -/
def signalHandlersInit : Wiring SignalKind SignalKind :=
  (handlerFunctions.foldl (fun (w : Wiring SignalKind SignalKind) f => (w.hold f).connect f f false)
    Wiring.empty).leave

theorem attachSignals_receivers (signal : SignalKind) : attachSignals.receivers signal = [] :=
  Wiring.receivers_leave_of_weak (by decide) rfl signal

theorem signalHandlersInit_receivers (signal : SignalKind) :
    signalHandlersInit.receivers signal = [signal] := by
  refine (Wiring.receivers_leave_of_strong (by decide) signal).trans ?_
  cases signal <;> rfl

section Sending
variable [LinearOrder Score]

/-- No signal sent after `attach_signals` has returned does anything. -/
theorem attachSignals_ignored (st : Attached Score ApplyFn Ranker)
    (signals : List (HandlerEnv ApplyFn Ranker × Signal)) :
    sendSignals attachSignals st signals = st :=
  Wiring.sendAll_of_no_receivers attachSignals_receivers deliver _ st signals

theorem signalHandlersInit_fold (st : Attached Score ApplyFn Ranker)
    (signals : List (HandlerEnv ApplyFn Ranker × Signal)) :
    sendSignals signalHandlersInit st signals = foldHandlers st signals := by
  refine (Wiring.sendAll_of_single_receiver signalHandlersInit_receivers deliver _ st signals).trans ?_
  congr 1
  funext st a
  exact if_pos rfl

end Sending

/-! ## Signals that would do nothing -/

/-- The signal carries no id that the registry knows. -/
def UnknownId (s : LearnedScheduler Score ApplyFn Ranker) (taskId : Option String) : Prop :=
  ∀ id, truthyId taskId = some id → id ∉ s.registry

/-- The handler of the signal has nothing to do: a prerun without a usable id or payload size, or of a
task already started at this very moment; a success without usable keyword arguments, or of an unknown
task while nothing waits to be dispatched; a failure or revocation of an unknown task. -/
def Inert (s : LearnedScheduler Score ApplyFn Ranker) : Signal → Prop
  | .taskPrerun _ taskId kwargs nowMs =>
    (∃ exc, (kwargs.getD ⟨none, none⟩).payload = .error exc) ∨
      ∀ id, truthyId taskId = some id → startOf s id = some nowMs
  | .taskSuccess sender _ =>
    (∀ kwargs, sender.bind Sender.requestKwargs = some kwargs → ∃ exc, kwargs.payload = .error exc) ∨
      UnknownId s (sender.bind Sender.requestId) ∧ (s.mode = .active → s.heap = [])
  | .taskFailure taskId => UnknownId s taskId
  | .taskRevoked requestId => UnknownId s requestId

theorem recordStart_eq_self_iff (s : LearnedScheduler Score ApplyFn Ranker) (id taskType : String)
    (payloadSize : ℤ) (nowMs : ℚ) :
    s.recordStart id taskType payloadSize nowMs = s ↔ startOf s id = some nowMs := by
  constructor
  · intro h
    rw [← h, startOf, recordStart_lookup, if_pos rfl]
    rfl
  · intro h
    obtain ⟨entry, hentry, hstart⟩ := Option.bind_eq_some_iff.mp h
    have hsame : { entry with startMs := some nowMs } = entry := by rw [← hstart]
    have hinsert : s.registry.insert id entry = s.registry := by
      refine Finmap.ext_lookup fun id' => ?_
      by_cases hid : id' = id
      · subst hid
        rw [Finmap.lookup_insert, hentry]
      · rw [Finmap.lookup_insert_of_ne _ hid]
    simp only [LearnedScheduler.recordStart, hentry, hsame, hinsert]

theorem erase_eq_self_iff (registry : Dict String RegistryEntry) (id : String) :
    registry.erase id = registry ↔ id ∉ registry := by
  constructor
  · intro h hmem
    rw [← h] at hmem
    exact Finmap.notMem_erase_self hmem
  · intro h
    refine Finmap.ext_lookup fun id' => ?_
    by_cases hid : id' = id
    · subst hid
      rw [Finmap.lookup_erase, Finmap.lookup_eq_none.mpr h]
    · rw [Finmap.lookup_erase_ne hid]

theorem cleanupRegistry_eq_self_iff (s : LearnedScheduler Score ApplyFn Ranker) (id : String) :
    s.cleanupRegistry id = s ↔ id ∉ s.registry := by
  rw [← erase_eq_self_iff]
  constructor
  · intro h
    exact congrArg LearnedScheduler.registry h
  · intro h
    simp only [LearnedScheduler.cleanupRegistry, h]

theorem onTaskFailure_inert_iff (s : LearnedScheduler Score ApplyFn Ranker) (taskId : Option String) :
    (onTaskFailure s taskId).scheduler = s ↔ UnknownId s taskId := by
  unfold onTaskFailure UnknownId
  cases truthyId taskId with
  | none => simp
  | some id => simpa using cleanupRegistry_eq_self_iff s id

theorem onTaskPrerun_inert_iff (s : LearnedScheduler Score ApplyFn Ranker) (sender : Option Sender)
    (taskId : Option String) (kwargs : Option TaskKwargs) (nowMs : ℚ) :
    (onTaskPrerun s sender taskId kwargs nowMs).scheduler = s ↔
      Inert s (.taskPrerun sender taskId kwargs nowMs) := by
  unfold onTaskPrerun Inert
  dsimp only
  cases (kwargs.getD ⟨none, none⟩).payload with
  | error exc => simp
  | ok payloadSize =>
    cases truthyId taskId with
    | none => simp
    | some id => simpa using recordStart_eq_self_iff s id _ payloadSize nowMs

section Inert
variable [LinearOrder Score]

theorem dispatchHeld_inert_iff (env : HandlerEnv ApplyFn Ranker)
    (s : LearnedScheduler Score ApplyFn Ranker) :
    (dispatchHeld env s).scheduler = s ↔ s.heap = [] := by
  rw [← extractLeast_eq_none_iff HeapEntry.key]
  rw [dispatchHeld_eq, LearnedScheduler.pop]
  cases hleast : extractLeast HeapEntry.key s.heap with
  | none => simp
  | some p =>
    have hlength := (extractLeast_perm _ hleast).length_eq
    have hpopped : ∀ r : Handled Score ApplyFn Ranker, r.scheduler.heap = p.2 → r.scheduler ≠ s := by
      rintro r hheap rfl
      rw [hheap, List.length_cons] at hlength
      omega
    simp only [Option.map_some, reduceCtorEq, iff_false]
    apply hpopped
    split <;> rfl

omit [LinearOrder Score] in
theorem recordCompletion_unknown (record : Ranker → RecordCall → Ranker × Except PyException Unit)
    {s : LearnedScheduler Score ApplyFn Ranker} {id : String} (h : id ∉ s.registry) (taskType : String)
    (payloadSize : ℤ) (nowMs : ℚ) :
    s.recordCompletion record id taskType payloadSize nowMs = ⟨s, .ok none, none⟩ := by
  simp only [LearnedScheduler.recordCompletion, LearnedScheduler.takeEntry,
    Finmap.lookup_eq_none.mpr h, Option.bind_none, (erase_eq_self_iff s.registry id).mpr h]

omit [LinearOrder Score] in
theorem recordCompletion_registry (record : Ranker → RecordCall → Ranker × Except PyException Unit)
    (s : LearnedScheduler Score ApplyFn Ranker) (id taskType : String) (payloadSize : ℤ) (nowMs : ℚ) :
    (s.recordCompletion record id taskType payloadSize nowMs).scheduler.registry =
      s.registry.erase id := by
  obtain ⟨stats, ranker, -, h⟩ := recordCompletion_scheduler record s id taskType payloadSize nowMs
  rw [h]

theorem onTaskSuccess_inert_iff (env : HandlerEnv ApplyFn Ranker)
    (s : LearnedScheduler Score ApplyFn Ranker) (sender : Option Sender) (nowMs : ℚ) :
    (onTaskSuccess env s sender nowMs).scheduler = s ↔ Inert s (.taskSuccess sender nowMs) := by
  have hdispatch : (if s.mode = .active then dispatchHeld env s else ⟨s, none, none⟩).scheduler = s ↔
      (s.mode = .active → s.heap = []) := by
    by_cases hmode : s.mode = .active
    · simpa [hmode] using dispatchHeld_inert_iff env s
    · simp [hmode]
  rw [onTaskSuccess_steps]
  unfold Inert UnknownId
  dsimp only
  cases sender.bind Sender.requestKwargs with
  | none => simp
  | some kwargs =>
    cases hpayload : kwargs.payload with
    | error exc => simp [hpayload]
    | ok payloadSize =>
      cases truthyId (sender.bind Sender.requestId) with
      | none => simpa [hpayload] using hdispatch
      | some id =>
        by_cases hmem : id ∈ s.registry
        · -- the entry of the task is gone afterwards, whatever else happens
          have hregistry := recordCompletion_registry env.record s id
            ((sender.map Sender.name).getD "unknown") payloadSize nowMs
          have hchanged : ∀ r : Handled Score ApplyFn Ranker,
              r.scheduler.registry = s.registry.erase id → r.scheduler ≠ s := by
            rintro r hr rfl
            exact (erase_eq_self_iff r.scheduler.registry id).mp hr.symm hmem
          simp only [Option.some.injEq, forall_eq', hpayload, reduceCtorEq, exists_false, hmem,
            not_true_eq_false, false_and, or_self, iff_false]
          apply hchanged
          split
          · exact hregistry
          · split
            · exact (dispatchHeld_keeps env _).2.2.trans hregistry
            · exact hregistry
        · simpa [recordCompletion_unknown env.record hmem, hpayload, hmem] using hdispatch

/-- A handler that has dispatched a task has taken it out of the heap. -/
theorem handle_dispatched_changes {env : HandlerEnv ApplyFn Ranker}
    {s : LearnedScheduler Score ApplyFn Ranker} {signal : Signal}
    (h : (handle env s signal).dispatched ≠ none) : (handle env s signal).scheduler ≠ s := by
  cases signal with
  | taskPrerun sender taskId kwargs nowMs =>
    refine absurd ?_ h
    show (onTaskPrerun s sender taskId kwargs nowMs).dispatched = none
    simp only [onTaskPrerun]
    split
    · rfl
    · split <;> rfl
  | taskFailure taskId => exact absurd (onTaskFailure_heap s taskId).2.2 h
  | taskRevoked requestId => exact absurd (onTaskRevoked_heap s requestId).2.2 h
  | taskSuccess sender nowMs =>
    intro hsame
    have hraised : (onTaskSuccess env s sender nowMs).raised = none := by
      by_contra hne
      obtain ⟨exc, hexc⟩ := Option.ne_none_iff_exists'.mp hne
      exact h (onTaskSuccess_raised hexc)
    obtain ⟨s', hheap, -, ⟨exc, hexc⟩ | hdone⟩ := onTaskSuccess_cases env s sender nowMs
    · rw [hexc] at hraised
      cases hraised
    · change (onTaskSuccess env s sender nowMs).dispatched ≠ none at h
      change (onTaskSuccess env s sender nowMs).scheduler = s at hsame
      rw [hdone] at h hsame hraised
      split at h
      · next hactive =>
        rw [if_pos hactive] at hsame hraised
        rcases dispatchHeld_spec hraised with ⟨-, -, hnone⟩ | ⟨e, hperm, -, -⟩
        · exact h hnone
        · have hlength := hperm.length_eq
          rw [hsame, hheap, List.length_cons] at hlength
          omega
      · exact h rfl

theorem handle_inert_iff (st : Attached Score ApplyFn Ranker)
    (a : HandlerEnv ApplyFn Ranker × Signal) : st.handle a = st ↔ Inert st.sched a.2 := by
  obtain ⟨env, signal⟩ := a
  have hsched : (handle env st.sched signal).scheduler = st.sched ↔ Inert st.sched signal := by
    cases signal with
    | taskPrerun sender taskId kwargs nowMs => exact onTaskPrerun_inert_iff st.sched sender taskId kwargs nowMs
    | taskSuccess sender nowMs => exact onTaskSuccess_inert_iff env st.sched sender nowMs
    | taskFailure taskId => exact onTaskFailure_inert_iff st.sched taskId
    | taskRevoked requestId => exact onTaskFailure_inert_iff st.sched requestId
  rw [← hsched]
  constructor
  · intro h
    exact congrArg Attached.sched h
  · intro h
    have hnone : (handle env st.sched signal).dispatched = none := by
      by_contra hne
      exact handle_dispatched_changes hne h
    simp only [Attached.handle, h, hnone, Option.toList_none, List.append_nil]

/-! ## After `attach_signals` -/

/-- For every scheduler and every sequence of signals sent after `attach_signals` has returned: the
scheduler and the dispatches are the fold of the handlers over the signals sent so far, all along the
sequence, exactly when every one of the signals is one that its handler would do nothing about. -/
theorem attached_handlers_fold_iff (s : LearnedScheduler Score ApplyFn Ranker)
    (signals : List (HandlerEnv ApplyFn Ranker × Signal)) :
    (∀ sent later, signals = sent ++ later →
      sendSignals attachSignals ⟨s, []⟩ sent = foldHandlers ⟨s, []⟩ sent) ↔
    ∀ a ∈ signals, Inert s a.2 := by
  have hfixed := forall_prefix_foldl_iff Attached.handle (⟨s, []⟩ : Attached Score ApplyFn Ranker) signals
  simp only [attachSignals_ignored]
  constructor
  · intro h a ha
    refine (handle_inert_iff ⟨s, []⟩ a).mp (hfixed.mp ?_ a ha)
    intro sent later hsplit
    exact (h sent later hsplit).symm
  · intro h sent later hsplit
    refine (hfixed.mpr ?_ sent later hsplit).symm
    intro a ha
    exact (handle_inert_iff ⟨s, []⟩ a).mpr (h a ha)

end Inert

/-- The `task_prerun` of one task, after `attach_signals` has returned, does not register its start. -/
theorem attached_handlers_ignore_prerun :
    ¬ ∀ (s : LearnedScheduler ℕ ℕ Unit) (signals : List (HandlerEnv ℕ Unit × Signal)),
      sendSignals attachSignals ⟨s, []⟩ signals = foldHandlers ⟨s, []⟩ signals := by
  intro hall
  have h := hall (.new .active () (.new 100))
    [(plainEnv.toHandlerEnv, .taskPrerun none (some "a") none 0)]
  rw [attachSignals_ignored] at h
  have hstart := congrArg (fun st => startOf st.sched "a") h
  exact absurd hstart (by decide)

end Chronoq.Celery
