import Chronoq.Ranker.TaskRanker

/-! # Overlapping `retrain` calls on one ranker

Any number of threads are inside `retrain` while others save records. An atomic step is the reading of
the store, a block under the lock, the drift check, a `fit`, or what follows the swap.

* `Model`: an estimator object, and the size of the snapshot its model was trained on. No step reads
  that size. An object has the name of the call that created it; `none` is the one that was installed
  before all calls.
* `Phase`: where a call is, with its local variables.
* `SharedRanker.view`: the ranker as a call sees it that has a snapshot of the store and holds an
  estimator. The steps of a call are the parts of `TaskRanker.retrain`, each on such a view.
* `retrain_alone`: a call that nobody interrupts is `TaskRanker.retrain`; `retrain_alone_installed`
  adds which object is installed after it. -/

namespace Chronoq.Ranker
open Foundations

set_option autoImplicit false

/-! ## State -/

structure Model where
  estimator : Estimator
  samples : ℕ

inductive Phase (Call : Type)
  | ready
  | fetched (records : List TaskRecord)
  | holding (records : List TaskRecord) (source : Option Call) (previousType : ModelType)
  | checked (records : List TaskRecord) (source : Option Call) (previousType : ModelType)
  | fitted (records : List TaskRecord) (target : Option Call) (metrics : FitMetrics)
    (previousType : ModelType)
  | swapped (records : List TaskRecord) (target : Option Call) (metrics : FitMetrics)
    (previousType : ModelType)
  | raised (exc : PyException)
  | ended (records : List TaskRecord) (metrics : FitMetrics)
    (result : Except PyException RetrainResult)

/-- What the call has returned or raised. -/
def Phase.outcome {Call : Type} : Phase Call → Option (Except PyException RetrainResult)
  | .raised exc => some (.error exc)
  | .ended _ _ result => some result
  | _ => none

/-- What the swap of a retrain installs; `none` if the call raises before its swap. -/
def TaskRanker.swapsIn (r : TaskRanker) (env : RankerEnv) : Option (Estimator × FitMetrics) :=
  match env.faults.getAll, driftCheckRaises (r.checkDrift env).2 with
  | none, none => ((r.driftChecked env).newEstimator env r.store).2.toOption
  | _, _ => none

structure SharedRanker (Call : Type) where
  config : RankerConfig
  extractor : FeatureExtractor
  store : List TaskRecord
  driftDetector : DriftDetector
  lastRetrainAt : Instant
  recordsSinceLastRetrain : ℕ
  objects : Option Call → Model
  installed : Option Call
  calls : Call → Phase Call

/-- An atomic step, with what it meets outside the ranker. -/
inductive SharedStep (Call : Type)
  | save (record : TaskRecord)
  | advance (i : Call) (env : RankerEnv)

namespace SharedRanker
variable {Call : Type}

/-- A ranker whose model was trained on `samples` records, before any of the calls. -/
def start (r : TaskRanker) (samples : ℕ) : SharedRanker Call where
  config := r.config
  extractor := r.extractor
  store := r.store
  driftDetector := r.driftDetector
  lastRetrainAt := r.lastRetrainAt
  recordsSinceLastRetrain := r.recordsSinceLastRetrain
  objects := fun _ => { estimator := r.estimator, samples := samples }
  installed := none
  calls := fun _ => .ready

def view (s : SharedRanker Call) (records : List TaskRecord) (held : Option Call) : TaskRanker where
  config := s.config
  store := records
  extractor := s.extractor
  estimator := (s.objects held).estimator
  lastRetrainAt := s.lastRetrainAt
  recordsSinceLastRetrain := s.recordsSinceLastRetrain
  driftDetector := s.driftDetector

/-- The size of the snapshot that the installed model was trained on. -/
def installedSamples (s : SharedRanker Call) : ℕ := (s.objects s.installed).samples

variable [DecidableEq Call]

def goto (s : SharedRanker Call) (i : Call) (phase : Phase Call) : SharedRanker Call :=
  { s with calls := Function.update s.calls i phase }

/-- The `finally` branch. -/
def settle (s : SharedRanker Call) (env : RankerEnv) : SharedRanker Call :=
  { s with lastRetrainAt := env.now, recordsSinceLastRetrain := 0 }

/-! ## Steps of a call -/

def fetch (s : SharedRanker Call) (i : Call) (env : RankerEnv) : SharedRanker Call :=
  match env.faults.getAll with
  | some exc => s.goto i (.raised exc)
  | none => s.goto i (.fetched s.store)

def readEstimator (s : SharedRanker Call) (i : Call) (records : List TaskRecord) :
    SharedRanker Call :=
  s.goto i (.holding records s.installed (s.objects s.installed).estimator.modelType)

def checkDrift (s : SharedRanker Call) (i : Call) (env : RankerEnv) (records : List TaskRecord)
    (source : Option Call) (previousType : ModelType) : SharedRanker Call :=
  let (detector, checked) := (s.view records source).checkDrift env
  let s := { s with driftDetector := detector }
  match TaskRanker.driftCheckRaises checked with
  | some exc => s.goto i (.raised exc)
  | none => s.goto i (.checked records source previousType)

/-- The object that holds the new estimator: a LambdaRank instance is fitted in place. -/
def targetOf (s : SharedRanker Call) (i : Call) (source : Option Call) (estimator : Estimator) :
    Option Call :=
  if (s.objects source).estimator.modelType = .lambdarank ∧ estimator.modelType = .lambdarank then
    source
  else some i

/-- The held object as the fit leaves it. -/
def refitHeld (s : SharedRanker Call) (source : Option Call) (estimator : Estimator) :
    SharedRanker Call :=
  { s with
    objects := Function.update s.objects source { s.objects source with estimator := estimator } }

/-- The new estimator in its object. A rejected fit has not replaced the model. -/
def place (s : SharedRanker Call) (target : Option Call) (estimator : Estimator)
    (records : List TaskRecord) (rejected : Bool) : SharedRanker Call :=
  { s with
    objects := Function.update s.objects target
      { estimator := estimator
        samples := if rejected then (s.objects target).samples else records.length } }

def fit (s : SharedRanker Call) (i : Call) (env : RankerEnv) (records : List TaskRecord)
    (source : Option Call) (previousType : ModelType) : SharedRanker Call :=
  match (s.view records source).newEstimator env records with
  | (r, .error exc) => ((s.refitHeld source r.estimator).settle env).goto i (.raised exc)
  | (r, .ok (estimator, metrics)) =>
    let target := s.targetOf i source estimator
    ((s.refitHeld source r.estimator).place target estimator records metrics.rejected).goto i
      (.fitted records target metrics previousType)

def swap (s : SharedRanker Call) (i : Call) (records : List TaskRecord) (target : Option Call)
    (metrics : FitMetrics) (previousType : ModelType) : SharedRanker Call :=
  { s with installed := target }.goto i (.swapped records target metrics previousType)

def finish (s : SharedRanker Call) (i : Call) (env : RankerEnv) (records : List TaskRecord)
    (target : Option Call) (metrics : FitMetrics) (previousType : ModelType) :
    SharedRanker Call :=
  let (r, updated) := (s.view records target).updateReference env records metrics.rejected
  ({ s with driftDetector := r.driftDetector }.settle env).goto i
    (.ended records metrics
      (updated.map fun _ =>
        TaskRanker.retrainResult previousType (s.objects target).estimator metrics))

def step (s : SharedRanker Call) : SharedStep Call → Option (SharedRanker Call)
  | .save record => some { s with store := s.store ++ [record] }
  | .advance i env =>
    match s.calls i with
    | .ready => some (s.fetch i env)
    | .fetched records => some (s.readEstimator i records)
    | .holding records source previousType => some (s.checkDrift i env records source previousType)
    | .checked records source previousType => some (s.fit i env records source previousType)
    | .fitted records target metrics previousType =>
      some (s.swap i records target metrics previousType)
    | .swapped records target metrics previousType =>
      some (s.finish i env records target metrics previousType)
    | .raised _ => none
    | .ended _ _ _ => none

abbrev Steps : SharedRanker Call → SharedStep Call → SharedRanker Call → Prop :=
  fun s a s' => s.step a = some s'

theorem Steps.unique (s : SharedRanker Call) (a : SharedStep Call) (s' s'' : SharedRanker Call)
    (h : Steps s a s') (h' : Steps s a s'') : s' = s'' :=
  Option.some.inj (h.symm.trans h')

/-! ## A call alone -/

section Alone
variable {s : SharedRanker Call} {i : Call} {records : List TaskRecord}
  {held : Option Call} {previousType : ModelType} {metrics : FitMetrics}

@[simp] theorem calls_goto (s : SharedRanker Call) (i : Call) (phase : Phase Call) :
    (s.goto i phase).calls i = phase := Function.update_self _ _ _

theorem steps_fetch (env : RankerEnv) (h : s.calls i = .ready) : Steps s (.advance i env) (s.fetch i env) := by
  simp only [Steps, step, h]

theorem steps_readEstimator (env : RankerEnv) (h : s.calls i = .fetched records) :
    Steps s (.advance i env) (s.readEstimator i records) := by
  simp only [Steps, step, h]

theorem steps_checkDrift (env : RankerEnv) (h : s.calls i = .holding records held previousType) :
    Steps s (.advance i env) (s.checkDrift i env records held previousType) := by
  simp only [Steps, step, h]

theorem steps_fit (env : RankerEnv) (h : s.calls i = .checked records held previousType) :
    Steps s (.advance i env) (s.fit i env records held previousType) := by
  simp only [Steps, step, h]

theorem steps_swap (env : RankerEnv) (h : s.calls i = .fitted records held metrics previousType) :
    Steps s (.advance i env) (s.swap i records held metrics previousType) := by
  simp only [Steps, step, h]

theorem steps_finish (env : RankerEnv) (h : s.calls i = .swapped records held metrics previousType) :
    Steps s (.advance i env) (s.finish i env records held metrics previousType) := by
  simp only [Steps, step, h]

end Alone

theorem newEstimator_fixed (r : TaskRanker) (env : RankerEnv) (records : List TaskRecord) :
    (r.newEstimator env records).1 =
      { r with estimator := (r.newEstimator env records).1.estimator } := by
  unfold TaskRanker.newEstimator
  split
  · split <;> rfl
  · rfl

theorem updateReference_fixed (r : TaskRanker) (env : RankerEnv) (records : List TaskRecord)
    (rejected : Bool) :
    (r.updateReference env records rejected).1 =
      { r with driftDetector := (r.updateReference env records rejected).1.driftDetector } := by
  unfold TaskRanker.updateReference
  split
  · split <;> rfl
  · rfl

/-- The steps of one call, with nobody else's between them. -/
def Alone (i : Call) (env : RankerEnv) (s t : SharedRanker Call) : Prop :=
  ∃ n, Run Steps s (List.replicate n (.advance i env)) t

theorem Alone.refl (i : Call) (env : RankerEnv) (s : SharedRanker Call) : Alone i env s s :=
  ⟨0, .nil s⟩

theorem Alone.cons {i : Call} {env : RankerEnv} {s t u : SharedRanker Call}
    (h : Steps s (.advance i env) t) (h' : Alone i env t u) : Alone i env s u := by
  obtain ⟨n, hrun⟩ := h'
  exact ⟨n + 1, .cons h hrun⟩

theorem view_finish {s : SharedRanker Call} {r : TaskRanker} (i : Call) (env : RankerEnv)
    {records : List TaskRecord} {target : Option Call} (metrics : FitMetrics)
    (previousType : ModelType) (hstore : s.store = records) (hinstalled : s.installed = target)
    (hview : s.view records target = r) :
    let t := s.finish i env records target metrics previousType
    t.view t.store t.installed =
        (r.updateReference env records metrics.rejected).1.settle env ∧
      (t.calls i).outcome = some ((r.updateReference env records metrics.rejected).2.map fun _ =>
        TaskRanker.retrainResult previousType r.estimator metrics) := by
  subst hstore hinstalled hview
  have hfixed := updateReference_fixed (s.view s.store s.installed) env s.store metrics.rejected
  dsimp only
  constructor
  · rw [hfixed]
    rfl
  · unfold finish
    rw [calls_goto]
    rfl

/-- The object that is installed after a call that swaps in what its fit has given, or nothing. -/
def installedAfter (s : SharedRanker Call) (i : Call) :
    Option (Estimator × FitMetrics) → Option Call
  | some (estimator, _) => s.targetOf i s.installed estimator
  | none => s.installed

/-- From the fit on, a call does what `refit` does to the ranker that it sees, and settles. -/
theorem refit_alone {s : SharedRanker Call} {i : Call} (env : RankerEnv)
    {previousType : ModelType} (h : s.calls i = .checked s.store s.installed previousType) :
    ∃ t, Alone i env s t ∧
      t.view t.store t.installed =
        ((s.view s.store s.installed).refit env s.store previousType).1.settle env ∧
      (t.calls i).outcome =
        some ((s.view s.store s.installed).refit env s.store previousType).2 ∧
      t.installed =
        s.installedAfter i ((s.view s.store s.installed).newEstimator env s.store).2.toOption := by
  have hfit := steps_fit env h
  have hfixed := newEstimator_fixed (s.view s.store s.installed) env s.store
  unfold SharedRanker.fit at hfit
  unfold TaskRanker.refit
  generalize (s.view s.store s.installed).newEstimator env s.store = fitted at hfit hfixed ⊢
  obtain ⟨r, exc | ⟨estimator, metrics⟩⟩ := fitted
  · change r = _ at hfixed
    refine ⟨_, .cons hfit (.refl _ _ _), ?_, by rw [calls_goto]; rfl, rfl⟩
    rw [hfixed]
    simp only [view, goto, settle, refitHeld, Function.update_self, TaskRanker.settle]
  · change r = _ at hfixed
    have hswap := steps_swap env (calls_goto
      ((s.refitHeld s.installed r.estimator).place (s.targetOf i s.installed estimator) estimator
        s.store metrics.rejected) i
      (.fitted s.store (s.targetOf i s.installed estimator) metrics previousType))
    refine ⟨_, .cons hfit (.cons hswap (.cons (steps_finish _ (calls_goto _ _ _)) (.refl _ _ _))), ?_⟩
    rw [← and_assoc]
    refine ⟨?_, rfl⟩
    generalize s.targetOf i s.installed estimator = target
    -- the object of the new estimator is what the swap installs
    have hview : ((((s.refitHeld s.installed r.estimator).place target estimator s.store
        metrics.rejected).goto i (.fitted s.store target metrics previousType)).swap i s.store target
          metrics previousType).view s.store target = { r with estimator := estimator } := by
      rw [hfixed]
      simp only [view, swap, goto, place, refitHeld, Function.update_self]
    exact view_finish i env metrics previousType rfl rfl hview

theorem checkDrift_raises {s : SharedRanker Call} (i : Call) {env : RankerEnv}
    {records : List TaskRecord} {source : Option Call} (previousType : ModelType) {exc : PyException}
    (h : TaskRanker.driftCheckRaises ((s.view records source).checkDrift env).2 = some exc) :
    s.checkDrift i env records source previousType =
      ({ s with driftDetector := ((s.view records source).checkDrift env).1 } :
        SharedRanker Call).goto i (.raised exc) := by
  unfold SharedRanker.checkDrift
  simp only [h]

theorem checkDrift_passes {s : SharedRanker Call} (i : Call) {env : RankerEnv}
    {records : List TaskRecord} {source : Option Call} (previousType : ModelType)
    (h : TaskRanker.driftCheckRaises ((s.view records source).checkDrift env).2 = none) :
    s.checkDrift i env records source previousType =
      ({ s with driftDetector := ((s.view records source).checkDrift env).1 } :
        SharedRanker Call).goto i (.checked records source previousType) := by
  unfold SharedRanker.checkDrift
  simp only [h]

/-- A call that nobody interrupts does what `TaskRanker.retrain` does, and what it leaves installed is
the object that was installed before or the target of its fit. -/
theorem retrain_alone_installed {s : SharedRanker Call} {i : Call} (env : RankerEnv)
    (h : s.calls i = .ready) :
    ∃ t, Alone i env s t ∧
      t.view t.store t.installed = ((s.view s.store s.installed).retrain env).1 ∧
      (t.calls i).outcome = some ((s.view s.store s.installed).retrain env).2 ∧
      t.installed = s.installedAfter i ((s.view s.store s.installed).swapsIn env) := by
  have hfetch := steps_fetch env h
  have hread := steps_readEstimator env (calls_goto s i (.fetched s.store))
  have hcheck := steps_checkDrift env (calls_goto (s.goto i (.fetched s.store)) i
    (.holding s.store s.installed (s.objects s.installed).estimator.modelType))
  unfold TaskRanker.swapsIn
  obtain ⟨exc, hgetAll, hretrain⟩ | ⟨exc, hgetAll, hraises, hretrain⟩ |
    ⟨hgetAll, hraises, hretrain⟩ := (s.view s.store s.installed).retrain_cases env
  · rw [hretrain]
    simp only [fetch, hgetAll] at hfetch ⊢
    exact ⟨_, .cons hfetch (.refl _ _ _), rfl, by rw [calls_goto]; rfl, rfl⟩
  · rw [hretrain]
    simp only [fetch, hgetAll] at hfetch
    rw [checkDrift_raises (s := (s.goto i _).goto i _) i _ hraises] at hcheck
    simp only [hgetAll, hraises]
    exact ⟨_, .cons hfetch (.cons hread (.cons hcheck (.refl _ _ _))), rfl,
      by rw [calls_goto]; rfl, rfl⟩
  · rw [hretrain]
    simp only [fetch, hgetAll] at hfetch
    rw [checkDrift_passes (s := (s.goto i _).goto i _) i _ hraises] at hcheck
    obtain ⟨t, halone, ht, houtcome, hinstalled⟩ := refit_alone env (calls_goto
      ({ (s.goto i (.fetched s.store)).readEstimator i s.store with
        driftDetector := ((s.view s.store s.installed).checkDrift env).1 } : SharedRanker Call) i
      (.checked s.store s.installed (s.objects s.installed).estimator.modelType))
    simp only [hgetAll, hraises]
    exact ⟨t, .cons hfetch (.cons hread (.cons hcheck halone)), ht, houtcome, hinstalled⟩

/-- A call that nobody interrupts leaves the ranker that `TaskRanker.retrain` leaves, and returns or
raises the same. -/
theorem retrain_alone {s : SharedRanker Call} {i : Call} (env : RankerEnv)
    (h : s.calls i = .ready) :
    ∃ t, Alone i env s t ∧
      t.view t.store t.installed = ((s.view s.store s.installed).retrain env).1 ∧
      (t.calls i).outcome = some ((s.view s.store s.installed).retrain env).2 := by
  obtain ⟨t, halone, ht, houtcome, -⟩ := retrain_alone_installed env h
  exact ⟨t, halone, ht, houtcome⟩

end SharedRanker

end Chronoq.Ranker
