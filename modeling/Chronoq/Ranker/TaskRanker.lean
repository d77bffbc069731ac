import Chronoq.Foundations.Transition
import Chronoq.Ranker.Drift

/-! # `TaskRanker`: recording, retraining and warm start

The ranker's attributes and its methods `record`, `retrain` and `_warm_start`, each a function that
returns the ranker it leaves together with what it returns or raises. The store is the list of its
records in the order of `get_all`.

`Faults` are exceptions that a call raises for a reason outside the model: `getAll`, `check`, `fit` and
`setReference` are the four steps of a retrain and `save` that of `record`. An exception of the fit
itself, of the extractor or of the drift check arises in the model on its own.

* `fitOrDegrade`: the fit of a LambdaRank estimator with its fallback, the same in `retrain` and
  `_warm_start`. It also returns the instance it was called on, which a `fit` that raises has changed.
* `refit`: the body of the `try` of `retrain`; `retrain` adds what comes before and the `finally`. -/

namespace Chronoq.Ranker
open Foundations

set_option autoImplicit false

/-! ## State -/

/-- `datetime.min` in UTC. -/
def epoch : Instant := -62135596800000000

structure TaskRanker where
  config : RankerConfig
  store : List TaskRecord
  extractor : FeatureExtractor
  estimator : Estimator := .heuristic {}
  lastRetrainAt : Instant := epoch
  recordsSinceLastRetrain : ℕ := 0
  driftDetector : DriftDetector := { config := config, extractor := extractor }

structure RetrainResult where
  mae : ℚ
  mape : ℚ
  samplesUsed : ℕ
  modelVersion : String
  promoted : Bool
  modelType : ModelType
  spearmanRho : Option ℚ
  pairwiseAccuracy : Option ℚ
  kendallTau : Option ℚ
  rejected : Bool
  deriving DecidableEq, Repr

structure Faults where
  save : Option PyException := none
  getAll : Option PyException := none
  check : Option PyException := none
  fit : Option PyException := none
  setReference : Option PyException := none

/-- What a call meets outside the ranker. -/
structure RankerEnv extends TrainEnv where
  numpy : Numpy ℚ
  now : Instant
  faults : Faults := {}

/-- `f` unless it is made to raise. -/
def orFault {σ α : Type} (fault : Option PyException) (s : σ) (f : σ × Except PyException α) :
    σ × Except PyException α :=
  match fault with
  | some exc => (s, .error exc)
  | none => f

/-! ## Fitting -/

/-- `fit`, and the gradient estimator in its place if there are too few groups and the configuration
allows it. -/
def fitOrDegrade (config : RankerConfig) (env : RankerEnv) (l : LambdaRankEstimator)
    (records : List TaskRecord) :
    LambdaRankEstimator × Except PyException (Estimator × FitMetrics) :=
  match orFault env.faults.fit l (l.fit env.toFitEnv records) with
  | (l, .ok metrics) => (l, .ok (.lambdarank l, metrics))
  | (l, .error exc) =>
    if exc.isInsufficientGroupsError ∧ config.allowDegrade then
      (l, (GradientEstimator.fit {} env.toTrainEnv records).map fun fitted =>
        (.gradient fitted.1, fitted.2))
    else (l, .error exc)

def fitHeuristic (env : RankerEnv) (records : List TaskRecord) :
    Except PyException (Estimator × FitMetrics) :=
  match env.faults.fit with
  | some exc => .error exc
  | none =>
    let (h, metrics) := HeuristicEstimator.fit {} env.sqrt records
    .ok (.heuristic h, metrics)

namespace TaskRanker

/-- The new estimator of a retrain and its metrics. A `LambdaRankEstimator` that is installed is the
one that is fitted, so it changes in place. -/
def newEstimator (r : TaskRanker) (env : RankerEnv) (records : List TaskRecord) :
    TaskRanker × Except PyException (Estimator × FitMetrics) :=
  if r.config.coldStartThreshold ≤ records.length then
    match r.estimator with
    | .lambdarank l =>
      let (l, fitted) := fitOrDegrade r.config env l records
      ({ r with estimator := .lambdarank l }, fitted)
    | _ => (r, (fitOrDegrade r.config env (.new r.config r.extractor) records).2)
  else (r, fitHeuristic env records)

def retrainResult (previousType : ModelType) (estimator : Estimator) (metrics : FitMetrics) :
    RetrainResult where
  mae := metrics.mae
  mape := metrics.mape
  samplesUsed := metrics.samplesUsed
  modelVersion := estimator.version
  promoted := estimator.modelType ≠ previousType
  modelType := estimator.modelType
  spearmanRho := metrics.spearmanRho
  pairwiseAccuracy := metrics.pairwiseAccuracy
  kendallTau := metrics.kendallTau
  rejected := metrics.rejected

/-- The reference is stored after a LambdaRank fit that was not rejected. -/
def updateReference (r : TaskRanker) (env : RankerEnv) (records : List TaskRecord)
    (rejected : Bool) : TaskRanker × Except PyException Unit :=
  match r.estimator with
  | .lambdarank _ =>
    if rejected then (r, .ok ())
    else
      let (detector, stored) := orFault env.faults.setReference r.driftDetector
        (r.driftDetector.setReference records)
      ({ r with driftDetector := detector }, stored)
  | _ => (r, .ok ())

def refit (r : TaskRanker) (env : RankerEnv) (records : List TaskRecord)
    (previousType : ModelType) : TaskRanker × Except PyException RetrainResult :=
  match r.newEstimator env records with
  | (r, .error exc) => (r, .error exc)
  | (r, .ok (estimator, metrics)) =>
    let (r, updated) :=
      { r with estimator := estimator }.updateReference env records metrics.rejected
    (r, updated.map fun _ => retrainResult previousType estimator metrics)

/-- The `finally` branch of `retrain`. -/
def settle (r : TaskRanker) (env : RankerEnv) : TaskRanker :=
  { r with lastRetrainAt := env.now, recordsSinceLastRetrain := 0 }

/-! ## `retrain` and `record` -/

def checkDrift (r : TaskRanker) (env : RankerEnv) : DriftDetector × Except PyException DriftReport :=
  orFault env.faults.check r.driftDetector (r.driftDetector.check env.numpy r.store)

/-- What of the drift check is not swallowed: a `RuntimeError` means that there is no reference yet. -/
def driftCheckRaises : Except PyException DriftReport → Option PyException
  | .ok _ => none
  | .error exc => if exc.isRuntimeError then none else some exc

def retrain (r : TaskRanker) (env : RankerEnv) : TaskRanker × Except PyException RetrainResult :=
  match env.faults.getAll with
  | some exc => (r, .error exc)
  | none =>
    let records := r.store
    let previousType := r.estimator.modelType
    let (detector, checked) := r.checkDrift env
    let r := { r with driftDetector := detector }
    match driftCheckRaises checked with
    | some exc => (r, .error exc)
    | none =>
      let (r, result) := r.refit env records previousType
      (r.settle env, result)

/-- How a `record` ends: it raises in `save`, returns, or hands on what its retrain did. -/
inductive RecordOutcome
  | notSaved (exc : PyException)
  | saved
  | retrained (result : Except PyException RetrainResult)

def recordOf (r : TaskRanker) (call : RecordCall) (now : Instant) : TaskRecord where
  taskType := call.taskType
  payloadSize := call.payloadSize
  actualMs := call.actualMs
  metadata := call.metadata
  recordedAt := now
  modelVersionAtRecord := r.estimator.version

/-- The ranker after the record is saved and counted. -/
def saved (r : TaskRanker) (env : RankerEnv) (call : RecordCall) : TaskRanker :=
  { r with
    store := r.store ++ [r.recordOf call env.now]
    recordsSinceLastRetrain := r.recordsSinceLastRetrain + 1 }

def record (r : TaskRanker) (env : RankerEnv) (call : RecordCall) : TaskRanker × RecordOutcome :=
  match env.faults.save with
  | some exc => (r, .notSaved exc)
  | none =>
    let r := r.saved env call
    if r.config.retrainEveryN ≤ r.recordsSinceLastRetrain then
      let (r, result) := r.retrain env
      (r, .retrained result)
    else (r, .saved)

/-! ## Construction -/

def fresh (config : RankerConfig) (extractor : FeatureExtractor) (store : List TaskRecord) :
    TaskRanker where
  config := config
  store := store
  extractor := extractor

def warmStart (r : TaskRanker) (env : RankerEnv) : Except PyException TaskRanker :=
  let records := r.store
  if r.config.coldStartThreshold ≤ records.length then
    (fitOrDegrade r.config env (.new r.config r.extractor) records).2.map fun fitted =>
      { r with estimator := fitted.1 }
  else (fitHeuristic env records).map fun fitted => { r with estimator := fitted.1 }

/-- `TaskRanker(config, storage, feature_extractor)` -/
def construct (config : RankerConfig) (extractor : FeatureExtractor) (store : List TaskRecord)
    (env : RankerEnv) : Except PyException TaskRanker :=
  let r := fresh config extractor store
  if 0 < store.length then r.warmStart env else .ok r

/-! ## What a retrain leaves alone -/

/-- The configuration, the extractor and the store are the same. -/
structure SameSetup (r r' : TaskRanker) : Prop where
  config : r'.config = r.config
  extractor : r'.extractor = r.extractor
  store : r'.store = r.store

theorem SameSetup.refl (r : TaskRanker) : r.SameSetup r := ⟨rfl, rfl, rfl⟩

theorem SameSetup.trans {r r' r'' : TaskRanker} (h : r.SameSetup r') (h' : r'.SameSetup r'') :
    r.SameSetup r'' :=
  ⟨h'.config.trans h.config, h'.extractor.trans h.extractor, h'.store.trans h.store⟩

theorem newEstimator_sameSetup (r : TaskRanker) (env : RankerEnv) (records : List TaskRecord) :
    r.SameSetup (r.newEstimator env records).1 := by
  unfold newEstimator
  split
  · split
    · exact ⟨rfl, rfl, rfl⟩
    · exact .refl r
  · exact .refl r

theorem updateReference_sameSetup (r : TaskRanker) (env : RankerEnv) (records : List TaskRecord)
    (rejected : Bool) : r.SameSetup (r.updateReference env records rejected).1 := by
  unfold updateReference
  split
  · split
    · exact .refl r
    · exact ⟨rfl, rfl, rfl⟩
  · exact .refl r

theorem refit_sameSetup (r : TaskRanker) (env : RankerEnv) (records : List TaskRecord)
    (previousType : ModelType) : r.SameSetup (r.refit env records previousType).1 := by
  have hnew := r.newEstimator_sameSetup env records
  unfold refit
  generalize r.newEstimator env records = fitted at hnew ⊢
  obtain ⟨r₁, exc | ⟨estimator, metrics⟩⟩ := fitted
  · exact hnew
  · have hinstalled : r.SameSetup { r₁ with estimator := estimator } :=
      ⟨hnew.config, hnew.extractor, hnew.store⟩
    exact hinstalled.trans (updateReference_sameSetup _ env records metrics.rejected)

/-- The ranker with the detector that the drift check leaves. -/
def driftChecked (r : TaskRanker) (env : RankerEnv) : TaskRanker :=
  { r with driftDetector := (r.checkDrift env).1 }

/-- A retrain raises before its `try`, in one of two ways, or runs the refit and settles. -/
theorem retrain_cases (r : TaskRanker) (env : RankerEnv) :
    (∃ exc, env.faults.getAll = some exc ∧ r.retrain env = (r, .error exc)) ∨
      (∃ exc, env.faults.getAll = none ∧ driftCheckRaises (r.checkDrift env).2 = some exc ∧
        r.retrain env = (r.driftChecked env, .error exc)) ∨
      (env.faults.getAll = none ∧ driftCheckRaises (r.checkDrift env).2 = none ∧
        r.retrain env =
          (((r.driftChecked env).refit env r.store r.estimator.modelType).1.settle env,
            ((r.driftChecked env).refit env r.store r.estimator.modelType).2)) := by
  unfold retrain
  split
  · next exc hgetAll => exact .inl ⟨exc, hgetAll, rfl⟩
  · next hgetAll =>
    dsimp only
    split
    · next exc hraises => exact .inr (.inl ⟨exc, hgetAll, hraises, rfl⟩)
    · next hraises => exact .inr (.inr ⟨hgetAll, hraises, rfl⟩)

theorem retrain_sameSetup (r : TaskRanker) (env : RankerEnv) :
    r.SameSetup (r.retrain env).1 := by
  obtain ⟨exc, -, hretrain⟩ | ⟨exc, -, -, hretrain⟩ | ⟨-, -, hretrain⟩ := r.retrain_cases env
  · rw [hretrain]
    exact .refl r
  · rw [hretrain]
    exact ⟨rfl, rfl, rfl⟩
  · rw [hretrain]
    have hrefit := (r.driftChecked env).refit_sameSetup env r.store r.estimator.modelType
    exact ⟨hrefit.config, hrefit.extractor, hrefit.store⟩

/-- Construction chooses an estimator and nothing else. -/
theorem construct_fixed {config : RankerConfig} {extractor : FeatureExtractor}
    {store : List TaskRecord} {env : RankerEnv} {r : TaskRanker}
    (h : construct config extractor store env = .ok r) :
    r = { fresh config extractor store with estimator := r.estimator } := by
  unfold construct at h
  dsimp only at h
  split at h
  · unfold warmStart at h
    dsimp only at h
    split at h
    · obtain ⟨fitted, -, rfl⟩ := exists_of_map_ok h
      rfl
    · obtain ⟨fitted, -, rfl⟩ := exists_of_map_ok h
      rfl
  · cases h
    rfl

end TaskRanker

/-! ## Runs -/

/-- A call of one of the two methods, with what it meets outside the ranker. -/
inductive RankerStep
  | record (env : RankerEnv) (call : RecordCall)
  | retrain (env : RankerEnv)

def RankerStep.env : RankerStep → RankerEnv
  | .record env _ => env
  | .retrain env => env

namespace TaskRanker

/-- The ranker after a call, and what the retrain of that call did if there was one. -/
def step (r : TaskRanker) : RankerStep → TaskRanker × Option (Except PyException RetrainResult)
  | .record env call =>
    match r.record env call with
    | (r, .retrained result) => (r, some result)
    | (r, _) => (r, none)
  | .retrain env =>
    let (r, result) := r.retrain env
    (r, some result)

abbrev Steps : TaskRanker → RankerStep → TaskRanker → Prop := fun r a r' => (r.step a).1 = r'

theorem Steps.unique (r : TaskRanker) (a : RankerStep) (r' r'' : TaskRanker) (h : Steps r a r')
    (h' : Steps r a r'') : r' = r'' :=
  h.symm.trans h'

/-- What the two methods do is one of three things: nothing, saving a record, or a retrain, of the
ranker as it is or with a record saved first. -/
theorem step_cases (r : TaskRanker) (a : RankerStep) :
    (∃ env call, a = .record env call ∧ env.faults.save ≠ none ∧ r.step a = (r, none)) ∨
      (∃ env call, a = .record env call ∧ env.faults.save = none ∧
        ((r.saved env call).recordsSinceLastRetrain : ℤ) < r.config.retrainEveryN ∧
        r.step a = (r.saved env call, none)) ∨
      (∃ env call, a = .record env call ∧ env.faults.save = none ∧
        r.config.retrainEveryN ≤ (r.saved env call).recordsSinceLastRetrain ∧
        r.step a = (((r.saved env call).retrain env).1, some ((r.saved env call).retrain env).2)) ∨
      (∃ env, a = .retrain env ∧ r.step a = ((r.retrain env).1, some (r.retrain env).2)) := by
  cases a with
  | retrain env => exact .inr (.inr (.inr ⟨env, rfl, rfl⟩))
  | record env call =>
    cases hsave : env.faults.save with
    | some exc =>
      refine .inl ⟨env, call, rfl, by simp [hsave], ?_⟩
      simp only [step, record, hsave]
    | none =>
      by_cases hdue : r.config.retrainEveryN ≤ (r.saved env call).recordsSinceLastRetrain
      · refine .inr (.inr (.inl ⟨env, call, rfl, hsave, hdue, ?_⟩))
        have hdue' : (r.saved env call).config.retrainEveryN ≤
            (r.saved env call).recordsSinceLastRetrain := hdue
        simp only [step, record, hsave, if_pos hdue']
      · refine .inr (.inl ⟨env, call, rfl, hsave, not_le.mp hdue, ?_⟩)
        have hdue' : ¬ (r.saved env call).config.retrainEveryN ≤
            (r.saved env call).recordsSinceLastRetrain := hdue
        simp only [step, record, hsave, if_neg hdue']

/-- The ranker on which the call makes a retrain attempt, if it makes one. -/
def attempt (r : TaskRanker) : RankerStep → Option (TaskRanker × RankerEnv)
  | .record env call =>
    if env.faults.save = none ∧
        r.config.retrainEveryN ≤ (r.saved env call).recordsSinceLastRetrain
    then some (r.saved env call, env) else none
  | .retrain env => some (r, env)

theorem step_attempt (r : TaskRanker) (a : RankerStep) :
    (r.attempt a = none ∧ (r.step a).2 = none) ∨
      ∃ r' env, r.attempt a = some (r', env) ∧
        r.step a = ((r'.retrain env).1, some (r'.retrain env).2) := by
  obtain ⟨env, call, rfl, hsave, hstep⟩ | ⟨env, call, rfl, hsave, hdue, hstep⟩ |
    ⟨env, call, rfl, hsave, hdue, hstep⟩ | ⟨env, rfl, hstep⟩ := r.step_cases a
  · refine .inl ⟨?_, by rw [hstep]⟩
    rw [attempt, if_neg (by simp [hsave])]
  · refine .inl ⟨?_, by rw [hstep]⟩
    rw [attempt, if_neg (by simp [hdue])]
  · refine .inr ⟨r.saved env call, env, ?_, hstep⟩
    rw [attempt, if_pos ⟨hsave, hdue⟩]
  · exact .inr ⟨r, env, rfl, hstep⟩

/-- The two methods never replace the configuration. -/
theorem step_config (r : TaskRanker) (a : RankerStep) : (r.step a).1.config = r.config := by
  obtain ⟨env, call, -, -, hstep⟩ | ⟨env, call, -, -, -, hstep⟩ | ⟨env, call, -, -, -, hstep⟩ |
    ⟨env, -, hstep⟩ := r.step_cases a
  · rw [hstep]
  · rw [hstep]
    rfl
  · rw [hstep]
    exact ((r.saved env call).retrain_sameSetup env).config
  · rw [hstep]
    exact (r.retrain_sameSetup env).config

end TaskRanker

end Chronoq.Ranker
