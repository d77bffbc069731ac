import Chronoq.Foundations.Transition
import Chronoq.Celery.Signals

/-! # Sequences of public calls on one scheduler

A `Call` is one call of a public method with the arguments and the clock reading that it takes, and
`CallStep` the step relation they make: every step brings its own `CallEnv`, so scoring, recording and
the `apply_fn`s may behave differently at every call.

An `apply_fn` is the last thing that `submit` and `dispatch_next` call, and they call it outside the
lock. What an `apply_fn` does with the scheduler itself is therefore a sequence of further calls, right
behind the one that called it; `CallEnv.apply` only says whether it returns or raises.

`call_effect` says once what a call can do to heap, registry and arrival counter. -/

namespace Chronoq.Celery
open Foundations Ranker

set_option autoImplicit false

/-! ## Calls -/

/-- The world outside the scheduler: the ranker's extractor followed by its estimator (`predict`),
and what handlers meet. -/
structure CallEnv (Score ApplyFn Ranker : Type) extends HandlerEnv ApplyFn Ranker where
  predict : Ranker → TaskCandidate → QueueContext → Except PyException Score

inductive Call (ApplyFn : Type)
  | submit (uuid taskType : String) (payloadSize : ℤ) (applyFn : ApplyFn) (taskId : Option String)
  | dispatchNext
  | recordStart (taskId taskType : String) (payloadSize : ℤ) (nowMs : ℚ)
  | recordCompletion (taskId taskType : String) (payloadSize : ℤ) (nowMs : ℚ)
  | cleanupRegistry (taskId : String)

variable {Score ApplyFn Ranker : Type}

/-- Calling an `apply_fn`, apart from what it does with the scheduler. -/
def CallEnv.effect (env : CallEnv Score ApplyFn Ranker) (applyFn : ApplyFn)
    (s : LearnedScheduler Score ApplyFn Ranker) :
    LearnedScheduler Score ApplyFn Ranker × Except PyException Unit := (s, env.apply applyFn)

/-- `task_id or str(uuid.uuid4())` -/
def chosenId (uuid : String) (taskId : Option String) : String :=
  match taskId with
  | none => uuid
  | some given => if given = "" then uuid else given

variable [LinearOrder Score] [Zero Score]

/-- The scheduler after a call. -/
def after (env : CallEnv Score ApplyFn Ranker) (s : LearnedScheduler Score ApplyFn Ranker) :
    Call ApplyFn → LearnedScheduler Score ApplyFn Ranker
  | .submit uuid taskType payloadSize applyFn taskId =>
    (s.submit env.predict env.effect uuid taskType payloadSize applyFn taskId).1
  | .dispatchNext => (s.dispatchNext env.effect).1
  | .recordStart taskId taskType payloadSize nowMs =>
    s.recordStart taskId taskType payloadSize nowMs
  | .recordCompletion taskId taskType payloadSize nowMs =>
    (s.recordCompletion env.record taskId taskType payloadSize nowMs).scheduler
  | .cleanupRegistry taskId => s.cleanupRegistry taskId

def CallStep (s : LearnedScheduler Score ApplyFn Ranker)
    (a : CallEnv Score ApplyFn Ranker × Call ApplyFn) (s' : LearnedScheduler Score ApplyFn Ranker) :
    Prop := after a.1 s a.2 = s'

/-- The submission that a call adds to the heap, if it adds one. -/
def acceptedBy (env : CallEnv Score ApplyFn Ranker) (s : LearnedScheduler Score ApplyFn Ranker) :
    Call ApplyFn → Option (Submission Score ApplyFn)
  | .submit uuid taskType payloadSize applyFn taskId =>
    if s.mode = .active ∧ chosenId uuid taskId ∉ s.registry then
      match s.score env.predict (chosenId uuid taskId) taskType payloadSize with
      | .error _ => none
      | .ok score => some ⟨chosenId uuid taskId, taskType, payloadSize, applyFn, score⟩
    else none
  | _ => none

/-! ## What a call can do -/

/-- How an active-mode `submit` ends. -/
inductive ActiveSubmit (predict : Ranker → TaskCandidate → QueueContext → Except PyException Score)
    (s : LearnedScheduler Score ApplyFn Ranker) (id taskType : String) (payloadSize : ℤ)
    (applyFn : ApplyFn) : LearnedScheduler Score ApplyFn Ranker × Except PyException String → Prop
  | unscored {exc : PyException} (hscore : s.score predict id taskType payloadSize = .error exc) :
      ActiveSubmit predict s id taskType payloadSize applyFn (s, .error exc)
  | refused {score : Score} (hscore : s.score predict id taskType payloadSize = .ok score)
      (hregistered : id ∈ s.registry) :
      ActiveSubmit predict s id taskType payloadSize applyFn (s, .error (.taskIdAlreadyRegistered id))
  | accepted {score : Score} (hscore : s.score predict id taskType payloadSize = .ok score)
      (hfresh : id ∉ s.registry) :
      ActiveSubmit predict s id taskType payloadSize applyFn
        ({ s with
            heap := ⟨score, s.arrivalCounter, applyFn, id⟩ :: s.heap
            arrivalCounter := s.arrivalCounter + 1
            registry := s.registry.insert id ⟨taskType, payloadSize, none⟩ }, .ok id)

omit [LinearOrder Score] in
theorem submitIn_eq {World : Type}
    (predict : Ranker → TaskCandidate → QueueContext → Except PyException Score)
    (apply : ApplyFn → LearnedScheduler Score ApplyFn Ranker × World →
      (LearnedScheduler Score ApplyFn Ranker × World) × Except PyException Unit)
    (s : LearnedScheduler Score ApplyFn Ranker) (world : World) (uuid taskType : String)
    (payloadSize : ℤ) (applyFn : ApplyFn) (taskId : Option String) :
    s.submitIn predict apply world uuid taskType payloadSize applyFn taskId =
      match s.mode with
      | .fifo =>
        ((apply applyFn (s, world)).1, (apply applyFn (s, world)).2.map fun _ => chosenId uuid taskId)
      | .shadow =>
        match s.score predict (chosenId uuid taskId) taskType payloadSize with
        | .error e => ((s, world), .error e)
        | .ok _ =>
          ((apply applyFn (s, world)).1, (apply applyFn (s, world)).2.map fun _ => chosenId uuid taskId)
      | .active =>
        match s.score predict (chosenId uuid taskId) taskType payloadSize with
        | .error e => ((s, world), .error e)
        | .ok score =>
          match s.push ⟨chosenId uuid taskId, taskType, payloadSize, applyFn, score⟩ with
          | .error e => ((s, world), .error e)
          | .ok (s', _) => ((s', world), .ok (chosenId uuid taskId)) := rfl

omit [LinearOrder Score] in
theorem submit_eq (predict : Ranker → TaskCandidate → QueueContext → Except PyException Score)
    (apply : ApplyFn → LearnedScheduler Score ApplyFn Ranker →
      LearnedScheduler Score ApplyFn Ranker × Except PyException Unit)
    (s : LearnedScheduler Score ApplyFn Ranker) (uuid taskType : String) (payloadSize : ℤ)
    (applyFn : ApplyFn) (taskId : Option String) :
    s.submit predict apply uuid taskType payloadSize applyFn taskId =
      match s.mode with
      | .fifo => ((apply applyFn s).1, (apply applyFn s).2.map fun _ => chosenId uuid taskId)
      | .shadow =>
        match s.score predict (chosenId uuid taskId) taskType payloadSize with
        | .error e => (s, .error e)
        | .ok _ => ((apply applyFn s).1, (apply applyFn s).2.map fun _ => chosenId uuid taskId)
      | .active =>
        match s.score predict (chosenId uuid taskId) taskType payloadSize with
        | .error e => (s, .error e)
        | .ok score =>
          match s.push ⟨chosenId uuid taskId, taskType, payloadSize, applyFn, score⟩ with
          | .error e => (s, .error e)
          | .ok (s', _) => (s', .ok (chosenId uuid taskId)) := by
  rw [LearnedScheduler.submit, submitIn_eq]
  cases s.mode with
  | fifo => rfl
  | shadow =>
    dsimp only
    cases s.score predict (chosenId uuid taskId) taskType payloadSize <;> rfl
  | active =>
    dsimp only
    cases s.score predict (chosenId uuid taskId) taskType payloadSize with
    | error e => rfl
    | ok score =>
      dsimp only
      cases s.push ⟨chosenId uuid taskId, taskType, payloadSize, applyFn, score⟩ <;> rfl

omit [LinearOrder Score] in
/-- In active mode no `apply_fn` is called. -/
theorem submitIn_active {World : Type}
    (predict : Ranker → TaskCandidate → QueueContext → Except PyException Score)
    (apply : ApplyFn → LearnedScheduler Score ApplyFn Ranker × World →
      (LearnedScheduler Score ApplyFn Ranker × World) × Except PyException Unit)
    {s : LearnedScheduler Score ApplyFn Ranker} (hmode : s.mode = .active) (world : World)
    (uuid taskType : String) (payloadSize : ℤ) (applyFn : ApplyFn) (taskId : Option String) :
    ∃ ended, ActiveSubmit predict s (chosenId uuid taskId) taskType payloadSize applyFn ended ∧
      s.submitIn predict apply world uuid taskType payloadSize applyFn taskId =
        ((ended.1, world), ended.2) := by
  rw [submitIn_eq, hmode]
  dsimp only
  cases hscore : s.score predict (chosenId uuid taskId) taskType payloadSize with
  | error exc => exact ⟨_, .unscored hscore, rfl⟩
  | ok score =>
    by_cases hmem : chosenId uuid taskId ∈ s.registry
    · refine ⟨_, .refused hscore hmem, ?_⟩
      simp only [LearnedScheduler.push, if_pos hmem]
    · refine ⟨_, .accepted hscore hmem, ?_⟩
      simp only [LearnedScheduler.push, if_neg hmem]

omit [LinearOrder Score] in
theorem submit_active (env : CallEnv Score ApplyFn Ranker)
    {s : LearnedScheduler Score ApplyFn Ranker} (hmode : s.mode = .active) (uuid taskType : String)
    (payloadSize : ℤ) (applyFn : ApplyFn) (taskId : Option String) :
    ActiveSubmit env.predict s (chosenId uuid taskId) taskType payloadSize applyFn
      (s.submit env.predict env.effect uuid taskType payloadSize applyFn taskId) := by
  obtain ⟨ended, hended, hsubmit⟩ := submitIn_active env.predict
    (fun f (sw : LearnedScheduler Score ApplyFn Ranker × Unit) =>
      (((env.effect f sw.1).1, ()), (env.effect f sw.1).2))
    hmode () uuid taskType payloadSize applyFn taskId
  rw [LearnedScheduler.submit, hsubmit]
  exact hended

omit [LinearOrder Score] in
/-- Out of active mode a submission leaves no trace in the scheduler. -/
theorem submit_not_active (env : CallEnv Score ApplyFn Ranker)
    {s : LearnedScheduler Score ApplyFn Ranker} (hmode : s.mode ≠ .active) (uuid taskType : String)
    (payloadSize : ℤ) (applyFn : ApplyFn) (taskId : Option String) :
    (s.submit env.predict env.effect uuid taskType payloadSize applyFn taskId).1 = s := by
  rw [submit_eq]
  cases hm : s.mode with
  | fifo => rfl
  | shadow =>
    dsimp only
    split <;> rfl
  | active => exact absurd hm hmode

/-- Everything a call can do to a scheduler, with the submission it accepts. -/
inductive CallEffect (s : LearnedScheduler Score ApplyFn Ranker) :
    Call ApplyFn → Option (Submission Score ApplyFn) → LearnedScheduler Score ApplyFn Ranker → Prop
  | notHeld {uuid taskType : String} {payloadSize : ℤ} {applyFn : ApplyFn} {taskId : Option String} :
      CallEffect s (.submit uuid taskType payloadSize applyFn taskId) none s
  | held {uuid taskType : String} {payloadSize : ℤ} {applyFn : ApplyFn} {taskId : Option String}
      {score : Score} (hmode : s.mode = .active) (hfresh : chosenId uuid taskId ∉ s.registry) :
      CallEffect s (.submit uuid taskType payloadSize applyFn taskId)
        (some ⟨chosenId uuid taskId, taskType, payloadSize, applyFn, score⟩)
        { s with
          heap := ⟨score, s.arrivalCounter, applyFn, chosenId uuid taskId⟩ :: s.heap
          arrivalCounter := s.arrivalCounter + 1
          registry := s.registry.insert (chosenId uuid taskId) ⟨taskType, payloadSize, none⟩ }
  | idle (hempty : s.heap = []) : CallEffect s .dispatchNext none s
  | dispatched {e : HeapEntry Score ApplyFn} {rest : List (HeapEntry Score ApplyFn)}
      (hleast : extractLeast HeapEntry.key s.heap = some (e, rest)) :
      CallEffect s .dispatchNext none { s with heap := rest }
  | started {taskId taskType : String} {payloadSize : ℤ} {nowMs : ℚ} :
      CallEffect s (.recordStart taskId taskType payloadSize nowMs) none
        (s.recordStart taskId taskType payloadSize nowMs)
  | completed {taskId taskType : String} {payloadSize : ℤ} {nowMs : ℚ} {stats : TypeStatsTracker}
      {ranker : Option Ranker} (hranker : ranker.isSome = s.ranker.isSome) :
      CallEffect s (.recordCompletion taskId taskType payloadSize nowMs) none
        { s with registry := s.registry.erase taskId, stats := stats, ranker := ranker }
  | cleaned {taskId : String} :
      CallEffect s (.cleanupRegistry taskId) none { s with registry := s.registry.erase taskId }

omit [LinearOrder Score] [Zero Score] in
theorem recordCompletion_scheduler
    (record : Ranker → RecordCall → Ranker × Except PyException Unit)
    (s : LearnedScheduler Score ApplyFn Ranker) (taskId taskType : String) (payloadSize : ℤ)
    (nowMs : ℚ) :
    ∃ stats ranker, ranker.isSome = s.ranker.isSome ∧
      (s.recordCompletion record taskId taskType payloadSize nowMs).scheduler =
        { s with registry := s.registry.erase taskId, stats := stats, ranker := ranker } := by
  unfold LearnedScheduler.recordCompletion
  simp only [LearnedScheduler.takeEntry]
  split
  · exact ⟨s.stats, s.ranker, rfl, rfl⟩
  · split
    · exact ⟨_, s.ranker, rfl, rfl⟩
    · next ranker hranker =>
      exact ⟨_, some _, by rw [hranker]; rfl, rfl⟩

theorem call_effect (env : CallEnv Score ApplyFn Ranker)
    (s : LearnedScheduler Score ApplyFn Ranker) (c : Call ApplyFn) :
    CallEffect s c (acceptedBy env s c) (after env s c) := by
  cases c with
  | submit uuid taskType payloadSize applyFn taskId =>
    by_cases hmode : s.mode = .active
    · have hsubmit := submit_active env hmode uuid taskType payloadSize applyFn taskId
      simp only [after, acceptedBy]
      generalize s.submit env.predict env.effect uuid taskType payloadSize applyFn taskId = r
        at hsubmit ⊢
      cases hsubmit with
      | unscored hscore =>
        simp only [hscore, ite_self]
        exact .notHeld
      | refused hscore hregistered =>
        simp only [hregistered, not_true_eq_false, and_false, if_false]
        exact .notHeld
      | accepted hscore hfresh =>
        rw [if_pos ⟨hmode, hfresh⟩, hscore]
        exact .held hmode hfresh
    · simp only [after, acceptedBy, hmode, false_and, if_false, submit_not_active env hmode]
      exact .notHeld
  | dispatchNext =>
    simp only [after, acceptedBy, LearnedScheduler.dispatchNext, LearnedScheduler.pop]
    cases hleast : extractLeast HeapEntry.key s.heap with
    | none => exact .idle ((extractLeast_eq_none_iff _).mp hleast)
    | some p => exact .dispatched hleast
  | recordStart taskId taskType payloadSize nowMs => exact .started
  | recordCompletion taskId taskType payloadSize nowMs =>
    obtain ⟨stats, ranker, hranker, hdone⟩ :=
      recordCompletion_scheduler env.record s taskId taskType payloadSize nowMs
    simp only [after, acceptedBy, hdone]
    exact .completed hranker
  | cleanupRegistry taskId => exact .cleaned

/-! ## What every call keeps -/

omit [LinearOrder Score] [Zero Score] in
theorem recordStart_frame (s : LearnedScheduler Score ApplyFn Ranker) (taskId taskType : String)
    (payloadSize : ℤ) (nowMs : ℚ) :
    (s.recordStart taskId taskType payloadSize nowMs).mode = s.mode ∧
      (s.recordStart taskId taskType payloadSize nowMs).heap = s.heap ∧
      (s.recordStart taskId taskType payloadSize nowMs).arrivalCounter = s.arrivalCounter := by
  unfold LearnedScheduler.recordStart
  split <;> exact ⟨rfl, rfl, rfl⟩

omit [LinearOrder Score] [Zero Score] in
theorem recordStart_stats (s : LearnedScheduler Score ApplyFn Ranker) (taskId taskType : String)
    (payloadSize : ℤ) (nowMs : ℚ) :
    (s.recordStart taskId taskType payloadSize nowMs).stats = s.stats ∧
      (s.recordStart taskId taskType payloadSize nowMs).ranker = s.ranker := by
  unfold LearnedScheduler.recordStart
  split <;> exact ⟨rfl, rfl⟩

theorem after_ranker (env : CallEnv Score ApplyFn Ranker) (s : LearnedScheduler Score ApplyFn Ranker)
    (c : Call ApplyFn) : (after env s c).ranker.isSome = s.ranker.isSome := by
  have heffect := call_effect env s c
  generalize after env s c = s' at heffect ⊢
  generalize acceptedBy env s c = accepted at heffect
  cases heffect with
  | started => rw [(recordStart_stats ..).2]
  | completed hranker => exact hranker
  | _ => rfl

omit [LinearOrder Score] [Zero Score] in
theorem recordStart_lookup (s : LearnedScheduler Score ApplyFn Ranker) (taskId taskType id : String)
    (payloadSize : ℤ) (nowMs : ℚ) :
    (s.recordStart taskId taskType payloadSize nowMs).registry.lookup id =
      if id = taskId then
        some { (s.registry.lookup taskId).getD ⟨taskType, payloadSize, none⟩ with
          startMs := some nowMs }
      else s.registry.lookup id := by
  unfold LearnedScheduler.recordStart
  by_cases h : id = taskId
  · subst h
    cases hentry : s.registry.lookup id <;> simp
  · cases hentry : s.registry.lookup taskId <;> simp [Finmap.lookup_insert_of_ne, h]

/-- Statistics and ranker are touched by `record_completion` only. -/
def Call.isCompletion : Call ApplyFn → Bool
  | .recordCompletion _ _ _ _ => true
  | _ => false

theorem after_of_not_completion (env : CallEnv Score ApplyFn Ranker)
    (s : LearnedScheduler Score ApplyFn Ranker) {c : Call ApplyFn} (h : c.isCompletion = false) :
    (after env s c).stats = s.stats ∧ (after env s c).ranker = s.ranker := by
  have heffect := call_effect env s c
  generalize after env s c = s' at heffect ⊢
  generalize acceptedBy env s c = accepted at heffect
  cases heffect with
  | started => exact recordStart_stats ..
  | completed _ => cases h
  | _ => exact ⟨rfl, rfl⟩

theorem callStep_deterministic (s : LearnedScheduler Score ApplyFn Ranker)
    (a : CallEnv Score ApplyFn Ranker × Call ApplyFn) (t t' : LearnedScheduler Score ApplyFn Ranker)
    (h : CallStep s a t) (h' : CallStep s a t') : t = t' := h.symm.trans h'

/-- Every task scores 0, every `apply_fn` returns and recording does nothing. -/
def plainEnv : CallEnv ℕ ℕ Unit where
  predict _ _ _ := .ok 0
  record ranker _ := (ranker, .ok ())
  apply _ := .ok ()

end Chronoq.Celery
