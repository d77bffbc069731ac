import Chronoq.Celery.SignalWiring

/-! # Shadow mode beside fifo mode

Two schedulers get the same submissions and signals. In fifo mode `submit` calls the `apply_fn` and
does nothing else. In shadow mode it first scores the task, and the call of the `apply_fn` stands behind
the scoring in the same function, without a `try`: where the extractor or the estimator raises, the
exception goes to the caller of `submit` and the `apply_fn` is not called. Everything else the ranker
does happens after the `apply_fn` or in handlers that dispatch nothing in these modes. -/

namespace Chronoq.Celery
open Foundations Ranker

set_option autoImplicit false

variable {Score ApplyFn Ranker : Type}

/-! ## Inputs and the calls they cause -/

/-- What reaches a scheduler from outside: a submission or a Celery signal. -/
inductive Input (ApplyFn : Type)
  | submit (uuid taskType : String) (payloadSize : ℤ) (applyFn : ApplyFn) (taskId : Option String)
  | signal (signal : Signal)

/-- The `apply_fn` that was submitted. -/
def Input.applyFn : Input ApplyFn → Option ApplyFn
  | .submit _ _ _ applyFn _ => some applyFn
  | .signal _ => none

variable [LinearOrder Score] [Zero Score]

/-- An `apply_fn` is written down when it is called, and then returns or raises. -/
def CallEnv.applyLogged (env : CallEnv Score ApplyFn Ranker) (applyFn : ApplyFn) (log : List ApplyFn) :
    List ApplyFn × Except PyException Unit := (log ++ [applyFn], env.apply applyFn)

/-- One input, with the list of the `apply_fn`s that have been called. -/
def inputIn (env : CallEnv Score ApplyFn Ranker) (s : LearnedScheduler Score ApplyFn Ranker)
    (log : List ApplyFn) : Input ApplyFn → LearnedScheduler Score ApplyFn Ranker × List ApplyFn
  | .submit uuid taskType payloadSize applyFn taskId =>
    (s.submitIn env.predict
      (fun f sw => ((sw.1, (env.applyLogged f sw.2).1), (env.applyLogged f sw.2).2))
      log uuid taskType payloadSize applyFn taskId).1
  | .signal signal =>
    ((handleIn env.record env.applyLogged s log signal).1.scheduler,
      (handleIn env.record env.applyLogged s log signal).2)

def InputStep (s : LearnedScheduler Score ApplyFn Ranker)
    (a : CallEnv Score ApplyFn Ranker × Input ApplyFn) (s' : LearnedScheduler Score ApplyFn Ranker) :
    Prop := (inputIn a.1 s [] a.2).1 = s'

/-- All `apply_fn`s called along a sequence of inputs, in order. -/
def calledIn (s : LearnedScheduler Score ApplyFn Ranker)
    (inputs : List (CallEnv Score ApplyFn Ranker × Input ApplyFn)) : List ApplyFn :=
  (inputs.foldl (fun sl a => inputIn a.1 sl.1 sl.2 a.2) (s, [])).2

/-- The `apply_fn`s submitted along a sequence of inputs, in order. -/
def submittedIn (inputs : List (CallEnv Score ApplyFn Ranker × Input ApplyFn)) : List ApplyFn :=
  inputs.filterMap fun a => a.2.applyFn

/-- Scoring the submission raises nothing. -/
def ScoringReturns (s : LearnedScheduler Score ApplyFn Ranker)
    (a : CallEnv Score ApplyFn Ranker × Input ApplyFn) : Prop :=
  match a.2 with
  | .submit uuid taskType payloadSize _ taskId =>
    ∃ score, s.score a.1.predict (chosenId uuid taskId) taskType payloadSize = .ok score
  | .signal _ => True

/-! ## One input -/

omit [LinearOrder Score] in
/-- Out of active mode, `submit` of a task whose scoring returns is one call of its `apply_fn`, whatever
this does. -/
theorem submit_calls_applyFn {World : Type}
    {predict : Ranker → TaskCandidate → QueueContext → Except PyException Score}
    {s : LearnedScheduler Score ApplyFn Ranker} (hmode : s.mode ≠ .active) {uuid taskType : String}
    {payloadSize : ℤ} {taskId : Option String} {score : Score}
    (hscore : s.score predict (chosenId uuid taskId) taskType payloadSize = .ok score)
    (apply : ApplyFn → LearnedScheduler Score ApplyFn Ranker × World →
      (LearnedScheduler Score ApplyFn Ranker × World) × Except PyException Unit)
    (world : World) (applyFn : ApplyFn) :
    s.submitIn predict apply world uuid taskType payloadSize applyFn taskId =
      ((apply applyFn (s, world)).1, (apply applyFn (s, world)).2.map fun _ => chosenId uuid taskId) := by
  rw [submitIn_eq, hscore]
  cases hm : s.mode with
  | fifo => rfl
  | shadow => rfl
  | active => exact absurd hm hmode

omit [LinearOrder Score] in
/-- A shadow-mode `submit` whose scoring raises calls nothing. -/
theorem submit_shadow_raises {World : Type}
    {predict : Ranker → TaskCandidate → QueueContext → Except PyException Score}
    {s : LearnedScheduler Score ApplyFn Ranker} (hmode : s.mode = .shadow) {uuid taskType : String}
    {payloadSize : ℤ} {taskId : Option String} {exc : PyException}
    (hscore : s.score predict (chosenId uuid taskId) taskType payloadSize = .error exc)
    (apply : ApplyFn → LearnedScheduler Score ApplyFn Ranker × World →
      (LearnedScheduler Score ApplyFn Ranker × World) × Except PyException Unit)
    (world : World) (applyFn : ApplyFn) :
    s.submitIn predict apply world uuid taskType payloadSize applyFn taskId = ((s, world), .error exc) := by
  rw [submitIn_eq, hmode]
  dsimp only
  rw [hscore]

omit [LinearOrder Score] in
/-- Nothing is scored in fifo mode. -/
theorem submit_fifo_calls {World : Type}
    {predict : Ranker → TaskCandidate → QueueContext → Except PyException Score}
    {s : LearnedScheduler Score ApplyFn Ranker} (hmode : s.mode = .fifo) (uuid taskType : String)
    (payloadSize : ℤ) (taskId : Option String)
    (apply : ApplyFn → LearnedScheduler Score ApplyFn Ranker × World →
      (LearnedScheduler Score ApplyFn Ranker × World) × Except PyException Unit)
    (world : World) (applyFn : ApplyFn) :
    s.submitIn predict apply world uuid taskType payloadSize applyFn taskId =
      ((apply applyFn (s, world)).1, (apply applyFn (s, world)).2.map fun _ => chosenId uuid taskId) := by
  rw [submitIn_eq, hmode]

omit [Zero Score] in
/-- Out of active mode no handler calls an `apply_fn`, so what it does is a matter of the scheduler. -/
theorem handleIn_of_not_active {World : Type}
    (record : Ranker → RecordCall → Ranker × Except PyException Unit)
    (apply : ApplyFn → World → World × Except PyException Unit)
    {s : LearnedScheduler Score ApplyFn Ranker} (hmode : s.mode ≠ .active) (signal : Signal) :
    ∃ handled, handled.scheduler.mode = s.mode ∧
      ∀ world, handleIn record apply s world signal = (handled, world) := by
  cases signal with
  | taskPrerun sender taskId kwargs nowMs =>
    exact ⟨_, (onTaskPrerun_heap s sender taskId kwargs nowMs).2, fun _ => rfl⟩
  | taskFailure taskId => exact ⟨_, (onTaskFailure_heap s taskId).2.1, fun _ => rfl⟩
  | taskRevoked requestId => exact ⟨_, (onTaskRevoked_heap s requestId).2.1, fun _ => rfl⟩
  | taskSuccess sender nowMs =>
    obtain ⟨s', hmode', ⟨exc, hended⟩ | hended⟩ :=
      onTaskSuccessIn_ended record apply s sender nowMs
    · exact ⟨⟨s', some exc, none⟩, hmode', hended⟩
    · refine ⟨⟨s', none, none⟩, hmode', fun world => ?_⟩
      rw [handleIn, hended world, if_neg (hmode' ▸ hmode)]

/-- A fifo-mode scheduler calls what is submitted. -/
theorem inputIn_fifo (env : CallEnv Score ApplyFn Ranker)
    {s : LearnedScheduler Score ApplyFn Ranker} (hmode : s.mode = .fifo) (input : Input ApplyFn) :
    ∃ s', s'.mode = .fifo ∧ ∀ log, inputIn env s log input = (s', log ++ input.applyFn.toList) := by
  cases input with
  | submit uuid taskType payloadSize applyFn taskId =>
    refine ⟨s, hmode, fun log => ?_⟩
    rw [inputIn, submit_fifo_calls hmode]
    rfl
  | signal signal =>
    obtain ⟨handled, hmode', hhandled⟩ := handleIn_of_not_active env.record env.applyLogged
      (by rw [hmode]; decide) signal
    refine ⟨handled.scheduler, hmode'.trans hmode, fun log => ?_⟩
    rw [inputIn, hhandled log]
    simp [Input.applyFn]

/-- A shadow-mode scheduler calls what is submitted, or nothing where scoring raises. -/
theorem inputIn_shadow (env : CallEnv Score ApplyFn Ranker)
    {s : LearnedScheduler Score ApplyFn Ranker} (hmode : s.mode = .shadow) (input : Input ApplyFn) :
    ∃ s', s'.mode = .shadow ∧
      ((ScoringReturns s (env, input) ∧
          ∀ log, inputIn env s log input = (s', log ++ input.applyFn.toList)) ∨
        (¬ ScoringReturns s (env, input) ∧ input.applyFn.isSome ∧
          ∀ log, inputIn env s log input = (s', log))) := by
  have hnot : s.mode ≠ .active := by
    rw [hmode]
    decide
  cases input with
  | submit uuid taskType payloadSize applyFn taskId =>
    refine ⟨s, hmode, ?_⟩
    cases hscore : s.score env.predict (chosenId uuid taskId) taskType payloadSize with
    | error exc =>
      refine .inr ⟨?_, rfl, fun log => ?_⟩
      · rintro ⟨score, hreturns⟩
        cases hscore.symm.trans hreturns
      · rw [inputIn, submit_shadow_raises hmode hscore]
    | ok score =>
      refine .inl ⟨⟨score, hscore⟩, fun log => ?_⟩
      rw [inputIn, submit_calls_applyFn hnot hscore]
      rfl
  | signal signal =>
    obtain ⟨handled, hmode', hhandled⟩ := handleIn_of_not_active env.record env.applyLogged hnot signal
    refine ⟨handled.scheduler, hmode'.trans hmode, .inl ⟨trivial, fun log => ?_⟩⟩
    rw [inputIn, hhandled log]
    simp [Input.applyFn]

/-! ## Whole sequences -/

/-- The calls of the inputs that are still to come, behind those of `log`. -/
def calledFrom (s : LearnedScheduler Score ApplyFn Ranker) (log : List ApplyFn)
    (inputs : List (CallEnv Score ApplyFn Ranker × Input ApplyFn)) : List ApplyFn :=
  (inputs.foldl (fun sl a => inputIn a.1 sl.1 sl.2 a.2) (s, log)).2

omit [LinearOrder Score] [Zero Score] in
theorem submittedIn_cons (a : CallEnv Score ApplyFn Ranker × Input ApplyFn)
    (inputs : List (CallEnv Score ApplyFn Ranker × Input ApplyFn)) :
    submittedIn (a :: inputs) = a.2.applyFn.toList ++ submittedIn inputs := by
  rw [submittedIn, List.filterMap_cons]
  cases a.2.applyFn <;> rfl

theorem calledFrom_fifo {s : LearnedScheduler Score ApplyFn Ranker} (hmode : s.mode = .fifo)
    (log : List ApplyFn) (inputs : List (CallEnv Score ApplyFn Ranker × Input ApplyFn)) :
    calledFrom s log inputs = log ++ submittedIn inputs := by
  induction inputs generalizing s log with
  | nil => exact (List.append_nil log).symm
  | cons a inputs ih =>
    obtain ⟨s', hmode', hinput⟩ := inputIn_fifo a.1 hmode a.2
    have hrest := ih hmode' (log ++ a.2.applyFn.toList)
    rw [calledFrom, List.foldl_cons, hinput, submittedIn_cons, ← List.append_assoc]
    exact hrest

/-- A shadow-mode scheduler never calls more than what is submitted, and calls all of it exactly if no
scoring raises. -/
theorem calledFrom_shadow {s : LearnedScheduler Score ApplyFn Ranker} (hmode : s.mode = .shadow)
    (log : List ApplyFn) (inputs : List (CallEnv Score ApplyFn Ranker × Input ApplyFn)) :
    (calledFrom s log inputs).length ≤ log.length + (submittedIn inputs).length ∧
      (calledFrom s log inputs = log ++ submittedIn inputs ↔
        EveryStep InputStep ScoringReturns s inputs) := by
  induction inputs generalizing s log with
  | nil => exact ⟨le_rfl, iff_of_true (List.append_nil log).symm everyStep_nil⟩
  | cons a inputs ih =>
    obtain ⟨s', hmode', hcases⟩ := inputIn_shadow a.1 hmode a.2
    have hstep : InputStep s a s' := by
      rcases hcases with ⟨-, hinput⟩ | ⟨-, -, hinput⟩
      · exact congrArg Prod.fst (hinput [])
      · exact congrArg Prod.fst (hinput [])
    have hlength : (submittedIn (a :: inputs)).length =
        a.2.applyFn.toList.length + (submittedIn inputs).length := by
      rw [submittedIn_cons, List.length_append]
    rw [everyStep_cons_iff (fun s a t t' h h' => h.symm.trans h') hstep, hlength]
    rcases hcases with ⟨hscore, hinput⟩ | ⟨hraises, hsome, hinput⟩
    · obtain ⟨hle, hiff⟩ := ih hmode' (log ++ a.2.applyFn.toList)
      have hcalled : calledFrom s log (a :: inputs) =
          calledFrom s' (log ++ a.2.applyFn.toList) inputs := by
        rw [calledFrom, List.foldl_cons, hinput]
        rfl
      rw [List.length_append] at hle
      rw [hcalled, submittedIn_cons, ← List.append_assoc, hiff]
      exact ⟨by omega, ⟨fun h => ⟨hscore, h⟩, fun h => h.2⟩⟩
    · obtain ⟨hle, -⟩ := ih hmode' log
      have hcalled : calledFrom s log (a :: inputs) = calledFrom s' log inputs := by
        rw [calledFrom, List.foldl_cons, hinput]
        rfl
      obtain ⟨f, hf⟩ := Option.isSome_iff_exists.mp hsome
      have hone : a.2.applyFn.toList.length = 1 := by
        rw [hf]
        rfl
      rw [hcalled]
      refine ⟨by omega, iff_of_false (fun heq => ?_) fun h => hraises h.1⟩
      have hsame := congrArg List.length heq
      rw [List.length_append, hlength] at hsame
      omega

/-- For every sequence of submissions and signals, with whatever scoring and recording does at each of
them: a shadow-mode scheduler calls the `apply_fn`s that a fifo-mode scheduler calls, which are the ones
submitted, once each and in order, exactly when scoring raises at none of the submissions. -/
theorem shadow_identical_to_fifo_iff (ranker : Ranker) (stats : TypeStatsTracker)
    (inputs : List (CallEnv Score ApplyFn Ranker × Input ApplyFn)) :
    (calledIn (.new .shadow ranker stats) inputs = calledIn (.new .fifo ranker stats) inputs ↔
      EveryStep InputStep ScoringReturns (.new .shadow ranker stats) inputs) ∧
    calledIn (.new .fifo ranker stats) inputs = submittedIn inputs := by
  have hfifo : calledIn (.new .fifo ranker stats) inputs = submittedIn inputs :=
    calledFrom_fifo rfl [] inputs
  refine ⟨?_, hfifo⟩
  rw [hfifo]
  exact (calledFrom_shadow rfl [] inputs).2

/-- One submission to an estimator that raises. -/
theorem shadow_drops_task_when_scoring_raises :
    ¬ ∀ inputs : List (CallEnv ℕ ℕ Unit × Input ℕ),
      calledIn (.new .shadow () (.new 100)) inputs = calledIn (.new .fifo () (.new 100)) inputs := by
  intro hall
  have h := hall [(⟨plainEnv.toHandlerEnv, fun _ _ _ => .error (.raised "LightGBMError")⟩,
    .submit "u" "resize" 512 7 none)]
  exact absurd h (by decide +kernel)

end Chronoq.Celery
