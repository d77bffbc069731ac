import Chronoq.Foundations.Interleaving
import Chronoq.Ranker.FitRuns
import Chronoq.Ranker.Predictions

/-! # A prediction while a retrain refits the same `LambdaRankEstimator`

`TaskRanker.retrain` calls `fit` on the installed instance, and a `predict` or `predict_scores` of
another thread uses that instance at the same time. An atomic step is a block under a lock, a rebuild
or an extension of the encoder, the reading of the codes into rows, a call of LightGBM or of a
booster, or one `version()`.

* `RetrainAction`, `retrainStep`: the eleven steps of the retrain. A step that its branch leaves out
  does nothing, and neither does any step after an exception.
* `PredictAction`, `predictStep`: five steps of the prediction and then one for each version it reads.
* `retrain_alone`, `predict_alone`: without the other thread these are `fit` and `PredictCall.run`. -/

namespace Chronoq.Ranker
open Foundations

set_option autoImplicit false

/-! ## The retrain -/

inductive RetrainAction
  | readEstimator
  | decide
  | snapshot
  | rebuildEncoder
  | extendEncoder
  | encodeRows
  | train
  | evaluate
  | installModel
  | countFit
  | swapEstimator
  deriving DecidableEq, Repr

/-- The local variables of `fit`. -/
structure RetrainThread where
  full : Bool := false
  prevModel : Option Booster := none
  prevRho : ℚ := 0
  fdicts : List FeatureDict := []
  rows : List Row := []
  model : Option Booster := none
  rho : ℚ := 0
  rejected : Bool := false
  raised : Option PyException := none

namespace RetrainThread

/-- `prevModel` stays empty on the way to a full fit. -/
def snapshot (t : RetrainThread) (i : FitInput) (e : LambdaRankEstimator) : RetrainThread :=
  let t := if t.full then t else { t with prevModel := e.model, prevRho := e.lastRho }
  match featureRows e.extractor i.records with
  | .error exc => { t with raised := some exc }
  | .ok fdicts => { t with fdicts := fdicts }

def encodeRows (t : RetrainThread) (i : FitInput) (e : LambdaRankEstimator) : RetrainThread :=
  match e.encoder.rows t.fdicts with
  | .error exc => { t with raised := some exc }
  | .ok rows =>
    let nValidGroups := (validGroupIds i.records).length
    if t.prevModel.isNone ∧ (nValidGroups : ℤ) < e.config.minGroups then
      { t with raised := some (.insufficientGroups nValidGroups e.config.minGroups) }
    else { t with rows := rows }

def fitCall (t : RetrainThread) (e : LambdaRankEstimator) (d : Prepared) : FitCall :=
  match t.prevModel with
  | none => e.fullFitCall d
  | some prevModel => e.incrementalFitCall prevModel d

def train (t : RetrainThread) (i : FitInput) (e : LambdaRankEstimator) : RetrainThread :=
  match i.env.lightgbm (t.fitCall e (assemble i.records t.rows)) with
  | .error exc => { t with raised := some exc }
  | .ok booster => { t with model := some booster }

def evaluate (t : RetrainThread) (i : FitInput) : RetrainThread :=
  let d := assemble i.records t.rows
  match t.prevModel, t.model with
  | _, none => t
  | none, some booster => { t with rho := (fullFitValidation i.env booster d).rho }
  | some _, some booster =>
    let rho := (incrementalFitValidation i.env booster d).rho
    { t with
      rho := rho
      rejected := decide (2 ≤ d.xVal.length ∧ rho < t.prevRho - rhoRejectionDelta) }

def install (t : RetrainThread) (i : FitInput) (e : LambdaRankEstimator) : LambdaRankEstimator :=
  match t.model with
  | some booster => if t.rejected then e else e.install i.env booster t.rho
  | none => e

def effect (i : FitInput) (e : LambdaRankEstimator) (t : RetrainThread) :
    RetrainAction → LambdaRankEstimator × RetrainThread
  | .readEstimator => (e, t)
  | .decide => (e, { t with full := e.fullRefitDue })
  | .snapshot => (e, t.snapshot i e)
  | .rebuildEncoder => (if t.prevModel.isNone then { e with encoder := Encoder.fresh } else e, t)
  | .extendEncoder => ({ e with encoder := e.encoder.extend t.fdicts }, t)
  | .encodeRows => (e, t.encodeRows i e)
  | .train => (e, t.train i e)
  | .evaluate => (e, t.evaluate i)
  | .installModel => (t.install i e, t)
  | .countFit => ({ e with incrementalCount := if t.full then 0 else e.incrementalCount + 1 }, t)
  -- the same instance is put back
  | .swapEstimator => (e, t)

end RetrainThread

def retrainProgram : List RetrainAction :=
  [.readEstimator, .decide, .snapshot, .rebuildEncoder, .extendEncoder, .encodeRows, .train,
    .evaluate, .installModel, .countFit, .swapEstimator]

/-! ## The prediction -/

inductive PredictAction
  | readEstimator
  | readModel
  | extendEncoder
  | encodeRows
  | score
  | readVersion
  deriving DecidableEq, Repr

/-- The local variables of `predict_batch` and of the ranker's method around it. -/
structure PredictThread where
  model : Option Booster := none
  rows : List Row := []
  results : List (ℚ × ℚ) := []
  versions : List String := []
  raised : Option PyException := none

namespace PredictThread

def encodeRows (features : List FeatureDict) (e : LambdaRankEstimator) (t : PredictThread) :
    PredictThread :=
  match e.encoder.rows features with
  | .error exc => { t with raised := some exc }
  | .ok rows => { t with rows := rows }

def score (features : List FeatureDict) (t : PredictThread) : PredictThread :=
  { t with
    results := match t.model with
      | some model => (model.predict t.rows).map fun s => (-s, 8 / 10)
      | none => List.replicate features.length (0, 0) }

def effect (features : List FeatureDict) (e : LambdaRankEstimator) (t : PredictThread) :
    PredictAction → LambdaRankEstimator × PredictThread
  | .readEstimator => (e, t)
  | .readModel => (e, { t with model := e.model })
  | .extendEncoder =>
    (if t.model.isSome then { e with encoder := e.encoder.extend features } else e, t)
  | .encodeRows => (e, if t.model.isSome then t.encodeRows features e else t)
  | .score => (e, t.score features)
  | .readVersion => (e, { t with versions := t.versions ++ [e.version] })

end PredictThread

def predictAction : ℕ → PredictAction
  | 0 => .readEstimator
  | 1 => .readModel
  | 2 => .extendEncoder
  | 3 => .encodeRows
  | 4 => .score
  | _ => .readVersion

/-! ## Both -/

/-- The instance that both threads use, and their local variables. -/
structure Shared where
  est : LambdaRankEstimator
  retrain : RetrainThread := {}
  predict : PredictThread := {}

def retrainStep (i : FitInput) (m : ℕ) (s : Shared) : Shared :=
  match retrainProgram[m]? with
  | none => s
  | some a =>
    if s.retrain.raised.isSome then s
    else { s with est := (s.retrain.effect i s.est a).1, retrain := (s.retrain.effect i s.est a).2 }

def predictStep (features : List FeatureDict) (n : ℕ) (s : Shared) : Shared :=
  if s.predict.raised.isSome then s
  else
    { s with
      est := (s.predict.effect features s.est (predictAction n)).1
      predict := (s.predict.effect features s.est (predictAction n)).2 }

namespace PredictCall

/-- The features that the call hands to the estimator, none if their extraction raises. -/
def featureDicts (call : PredictCall) (extractor : FeatureExtractor) : List FeatureDict :=
  match call.features extractor with
  | .ok features => features
  | .error _ => []

/-- A call whose extraction raises is over before it touches the estimator. -/
def start (call : PredictCall) (e : LambdaRankEstimator) : Shared where
  est := e
  predict :=
    { raised := match call.features e.extractor with
        | .ok _ => none
        | .error exc => some exc }

def answer (call : PredictCall) (t : PredictThread) : Except PyException Response :=
  match t.raised with
  | some exc => .error exc
  | none => .ok (call.respond t.results (fun rank => t.versions.getD rank "") .lambdarank)

end PredictCall

/-! ## What a step leaves alone -/

section Frames
variable {i : FitInput} {features : List FeatureDict}

theorem retrainStep_of_raised {s : Shared} (h : s.retrain.raised.isSome) (m : ℕ) :
    retrainStep i m s = s := by
  unfold retrainStep
  split
  · rfl
  · rw [if_pos h]

theorem retrainStep_of_ok {s : Shared} {m : ℕ} {a : RetrainAction} (ha : retrainProgram[m]? = some a)
    (h : s.retrain.raised = none) :
    retrainStep i m s =
      ⟨(s.retrain.effect i s.est a).1, (s.retrain.effect i s.est a).2, s.predict⟩ := by
  unfold retrainStep
  simp [ha, h]

theorem predictStep_of_raised {s : Shared} (h : s.predict.raised.isSome) (n : ℕ) :
    predictStep features n s = s := by
  rw [predictStep, if_pos h]

theorem predictStep_of_ok {s : Shared} (h : s.predict.raised = none) (n : ℕ) :
    predictStep features n s =
      ⟨(s.predict.effect features s.est (predictAction n)).1, s.retrain,
        (s.predict.effect features s.est (predictAction n)).2⟩ := by
  simp [predictStep, h]

@[simp] theorem retrainStep_predict (m : ℕ) (s : Shared) :
    (retrainStep i m s).predict = s.predict := by
  unfold retrainStep
  split
  · rfl
  · split <;> rfl

@[simp] theorem predictStep_retrain (n : ℕ) (s : Shared) :
    (predictStep features n s).retrain = s.retrain := by
  unfold predictStep
  split <;> rfl

end Frames

/-! ## The retrain alone -/

section RetrainAlone
variable {i : FitInput} {s : Shared} {e : LambdaRankEstimator} {t : RetrainThread}
  {p : PredictThread} {x : List Row} {booster : Booster}

/-- Once the retrain has raised its other steps change nothing. -/
theorem retrain_alone_of_raised {m : ℕ} (h : runAlone (retrainStep i) m s = ⟨e, t, p⟩)
    (hraised : t.raised.isSome) (j : ℕ) : runAlone (retrainStep i) (m + j) s = ⟨e, t, p⟩ := by
  induction j with
  | zero => exact h
  | succ j ih =>
    rw [← Nat.add_assoc, runAlone_succ, ih]
    exact retrainStep_of_raised hraised _

theorem retrain_alone_three (i : FitInput) (e : LambdaRankEstimator) (p : PredictThread) :
    runAlone (retrainStep i) 3 ⟨e, {}, p⟩ =
      ⟨e, RetrainThread.snapshot { full := e.fullRefitDue } i e, p⟩ := by
  rw [runAlone_succ, runAlone_succ, runAlone_succ, runAlone_zero,
    retrainStep_of_ok (m := 0) (a := .readEstimator) rfl rfl,
    retrainStep_of_ok (m := 1) (a := .decide) rfl rfl,
    retrainStep_of_ok (m := 2) (a := .snapshot) rfl rfl]
  rfl

theorem snapshot_ok {fdicts : List FeatureDict} (hrows : featureRows e.extractor i.records = .ok fdicts)
    (t : RetrainThread) : t.snapshot i e =
      { t with
        prevModel := if t.full then t.prevModel else e.model
        prevRho := if t.full then t.prevRho else e.lastRho
        fdicts := fdicts } := by
  obtain ⟨full⟩ := t
  rw [RetrainThread.snapshot, hrows]
  cases full <;> rfl

/-- After five steps of the retrain the encoder is changed and its rows are not yet read. -/
structure EncoderChanged (i : FitInput) (e : LambdaRankEstimator) (p : PredictThread)
    (prevModel : Option Booster) (fdicts : List FeatureDict) (e' : LambdaRankEstimator)
    (t : RetrainThread) : Prop where
  run : runAlone (retrainStep i) 5 ⟨e, {}, p⟩ = ⟨e', t, p⟩
  est : e' = { e with
    encoder := (if e.fullRefitDue then Encoder.fresh else e.encoder).extend fdicts }
  thread : t = { full := e.fullRefitDue
                 prevModel := prevModel
                 prevRho := if e.fullRefitDue then 0 else e.lastRho
                 fdicts := fdicts }

theorem retrain_alone_five {fdicts : List FeatureDict} (prevModel : Option Booster)
    (p : PredictThread) (hrows : featureRows e.extractor i.records = .ok fdicts)
    (hprev : prevModel = if e.fullRefitDue then none else e.model) :
    ∃ e' t, EncoderChanged i e p prevModel fdicts e' t := by
  have hsnapshot : RetrainThread.snapshot { full := e.fullRefitDue } i e =
      { full := e.fullRefitDue
        prevModel := prevModel
        prevRho := if e.fullRefitDue then 0 else e.lastRho
        fdicts := fdicts } := by
    rw [snapshot_ok hrows, hprev]
  have hrebuild : prevModel.isNone = e.fullRefitDue := by
    rw [hprev]
    cases hdue : e.fullRefitDue with
    | true => rfl
    | false =>
      simp only [LambdaRankEstimator.fullRefitDue, Bool.or_eq_false_iff] at hdue
      exact hdue.1
  refine ⟨_, _, ?_, rfl, rfl⟩
  rw [runAlone_succ, runAlone_succ, retrain_alone_three, hsnapshot,
    retrainStep_of_ok (m := 3) (a := .rebuildEncoder) rfl rfl,
    retrainStep_of_ok (m := 4) (a := .extendEncoder) rfl rfl]
  simp only [RetrainThread.effect, hrebuild]
  cases e.fullRefitDue <;> rfl

section EncoderChanged
variable {prevModel : Option Booster} {fdicts : List FeatureDict} {e' : LambdaRankEstimator}

theorem EncoderChanged.ok (h : EncoderChanged i e p prevModel fdicts e' t) : t.raised = none := by
  rw [h.thread]

theorem EncoderChanged.prev (h : EncoderChanged i e p prevModel fdicts e' t) :
    t.prevModel = prevModel := by
  rw [h.thread]

theorem EncoderChanged.config (h : EncoderChanged i e p prevModel fdicts e' t) :
    e'.config = e.config := by
  rw [h.est]

theorem EncoderChanged.reads (h : EncoderChanged i e p prevModel fdicts e' t) :
    e'.encoder.rows t.fdicts =
      ((if e.fullRefitDue then Encoder.fresh else e.encoder).extend fdicts).rows fdicts := by
  rw [h.est, h.thread]

theorem EncoderChanged.fitCall (h : EncoderChanged i e p prevModel fdicts e' t) (d : Prepared) :
    t.fitCall e' d = RetrainThread.fitCall { prevModel := prevModel } e d := by
  rw [h.est, h.thread]
  rfl

end EncoderChanged

theorem encodeRows_error {exc : PyException} (hx : e.encoder.rows t.fdicts = .error exc) :
    t.encodeRows i e = { t with raised := some exc } := by
  rw [RetrainThread.encodeRows, hx]

theorem encodeRows_fewGroups (hx : e.encoder.rows t.fdicts = .ok x) (hprev : t.prevModel = none)
    (hgroups : ((validGroupIds i.records).length : ℤ) < e.config.minGroups) :
    (t.encodeRows i e).raised.isSome := by
  rw [RetrainThread.encodeRows, hx]
  simp [hprev, hgroups]

theorem encodeRows_ok (hx : e.encoder.rows t.fdicts = .ok x)
    (hgroups : t.prevModel = none → e.config.minGroups ≤ (validGroupIds i.records).length) :
    t.encodeRows i e = { t with rows := x } := by
  have hnot : ¬ (t.prevModel.isNone ∧ ((validGroupIds i.records).length : ℤ) < e.config.minGroups) :=
    fun h => absurd (hgroups (Option.isNone_iff_eq_none.mp h.1)) (not_le.mpr h.2)
  rw [RetrainThread.encodeRows, hx]
  exact if_neg hnot

theorem evaluate_full (hprev : t.prevModel = none) (hmodel : t.model = some booster) :
    t.evaluate i =
      { t with rho := (fullFitValidation i.env booster (assemble i.records t.rows)).rho } := by
  unfold RetrainThread.evaluate
  split
  · next hnone =>
    rw [hmodel] at hnone
    cases hnone
  · next hsome =>
    rw [hmodel] at hsome
    cases hsome
    rfl
  · next hsome _ =>
    rw [hprev] at hsome
    cases hsome

theorem install_evaluate_full (hprev : t.prevModel = none) (hrejected : t.rejected = false) :
    ({ t with rows := x, model := some booster }.evaluate i).install i e =
      e.install i.env booster (fullFitValidation i.env booster (assemble i.records x)).rho := by
  rw [evaluate_full (t := { t with rows := x, model := some booster }) hprev rfl]
  simp [RetrainThread.install, hrejected]

theorem install_evaluate_incremental {prevModel : Booster} (hprev : t.prevModel = some prevModel)
    (hrho : t.prevRho = e.lastRho) :
    ({ t with rows := x, model := some booster }.evaluate i).install i e =
      if e.gateRejects i.env booster (assemble i.records x) then e
      else e.install i.env booster
        (incrementalFitValidation i.env booster (assemble i.records x)).rho := by
  rw [RetrainThread.evaluate, hprev]
  by_cases hgate : e.gateRejects i.env booster (assemble i.records x)
  · rw [if_pos hgate]
    rw [LambdaRankEstimator.gateRejects, ← hrho] at hgate
    simp [RetrainThread.install, hgate]
  · rw [if_neg hgate]
    rw [LambdaRankEstimator.gateRejects, ← hrho] at hgate
    simp [RetrainThread.install, hgate]

/-! ### The steps after the encoder has changed -/

section Rest
variable (hfive : runAlone (retrainStep i) 5 s = ⟨e, t, p⟩) (hok : t.raised = none)
include hfive hok

theorem retrain_alone_unread (h : (t.encodeRows i e).raised.isSome) :
    (runAlone (retrainStep i) 11 s).est = e := by
  have hsix : runAlone (retrainStep i) 6 s = ⟨e, t.encodeRows i e, p⟩ := by
    rw [runAlone_succ, hfive, retrainStep_of_ok (a := .encodeRows) rfl hok]
    rfl
  rw [retrain_alone_of_raised hsix h 5]

variable (hx : e.encoder.rows t.fdicts = .ok x)
  (hgroups : t.prevModel = none → e.config.minGroups ≤ (validGroupIds i.records).length)
include hx hgroups

theorem retrain_alone_seven :
    runAlone (retrainStep i) 7 s = ⟨e, { t with rows := x }.train i e, p⟩ := by
  rw [runAlone_succ, runAlone_succ, hfive,
    retrainStep_of_ok (m := 5) (a := .encodeRows) rfl hok]
  simp only [RetrainThread.effect, encodeRows_ok hx hgroups]
  rw [retrainStep_of_ok (a := .train) rfl hok]
  rfl

theorem retrain_alone_untrained {exc : PyException}
    (hfit : i.env.lightgbm (t.fitCall e (assemble i.records x)) = .error exc) :
    (runAlone (retrainStep i) 11 s).est = e := by
  have hseven := retrain_alone_seven hfive hok hx hgroups
  have htrain : ({ t with rows := x }.train i e).raised.isSome := by
    rw [RetrainThread.train]
    change (match i.env.lightgbm (t.fitCall e (assemble i.records x)) with
      | .error exc => { t with rows := x, raised := some exc }
      | .ok booster => { t with rows := x, model := some booster }).raised.isSome
    rw [hfit]
    rfl
  rw [retrain_alone_of_raised hseven htrain 4]

theorem retrain_alone_trained
    (hfit : i.env.lightgbm (t.fitCall e (assemble i.records x)) = .ok booster) :
    (runAlone (retrainStep i) 11 s).est =
      { ({ t with rows := x, model := some booster }.evaluate i).install i e with
        incrementalCount := if t.full then 0 else e.incrementalCount + 1 } := by
  have hseven := retrain_alone_seven hfive hok hx hgroups
  have htrain : { t with rows := x }.train i e = { t with rows := x, model := some booster } := by
    rw [RetrainThread.train]
    change (match i.env.lightgbm (t.fitCall e (assemble i.records x)) with
      | .error exc => { t with rows := x, raised := some exc }
      | .ok booster => { t with rows := x, model := some booster }) = _
    rw [hfit]
  rw [htrain] at hseven
  generalize ht' : ({ t with rows := x, model := some booster } : RetrainThread) = t' at hseven ⊢
  have hok' : (t'.evaluate i).raised = none := by
    subst ht'
    unfold RetrainThread.evaluate
    split <;> exact hok
  have hfull : (t'.evaluate i).full = t.full := by
    subst ht'
    unfold RetrainThread.evaluate
    split <;> rfl
  have hcount : ((t'.evaluate i).install i e).incrementalCount = e.incrementalCount := by
    unfold RetrainThread.install
    split
    · split <;> rfl
    · rfl
  rw [runAlone_succ, runAlone_succ, runAlone_succ, runAlone_succ, hseven,
    retrainStep_of_ok (m := 7) (a := .evaluate) rfl (by rw [← ht']; exact hok),
    retrainStep_of_ok (m := 8) (a := .installModel) rfl hok',
    retrainStep_of_ok (m := 9) (a := .countFit) rfl hok',
    retrainStep_of_ok (m := 10) (a := .swapEstimator) rfl hok']
  simp only [RetrainThread.effect, hfull, hcount]

end Rest

/-- A retrain that raises after it has changed the encoder leaves the rest of the estimator alone. -/
theorem EncoderChanged.failed {prevModel : Option Booster} {fdicts : List FeatureDict}
    {e' : LambdaRankEstimator} (h : EncoderChanged i e p prevModel fdicts e' t) (exc : PyException)
    (hwhy : e'.encoder.rows t.fdicts = .error exc ∨ ∃ x, e'.encoder.rows t.fdicts = .ok x ∧
      (prevModel = none ∧ ((validGroupIds i.records).length : ℤ) < e.config.minGroups ∨
        (prevModel = none → e.config.minGroups ≤ (validGroupIds i.records).length) ∧
          i.env.lightgbm (RetrainThread.fitCall { prevModel := prevModel } e
            (assemble i.records x)) = .error exc)) :
    (runAlone (retrainStep i) 11 ⟨e, {}, p⟩).est = e' := by
  rw [← h.config, ← h.prev] at hwhy
  obtain hx | ⟨x, hx, ⟨hprev, hgroups⟩ | ⟨hgroups, hfit⟩⟩ := hwhy
  · refine retrain_alone_unread h.run h.ok ?_
    rw [encodeRows_error hx]
    rfl
  · exact retrain_alone_unread h.run h.ok (encodeRows_fewGroups hx hprev hgroups)
  · rw [h.prev, ← h.fitCall] at hfit
    exact retrain_alone_untrained h.run h.ok hx hgroups hfit

/-- An incremental fit that gets as far as the gate. -/
theorem retrain_alone_incremental {fdicts : List FeatureDict} {prevModel : Booster}
    (p : PredictThread) (hdue : e.fullRefitDue = false) (hmodel : e.model = some prevModel)
    (hrows : featureRows e.extractor i.records = .ok fdicts)
    (hx : (e.encoder.extend fdicts).rows fdicts = .ok x)
    (hfit : i.env.lightgbm (e.incrementalFitCall prevModel (assemble i.records x)) = .ok booster) :
    (runAlone (retrainStep i) 11 ⟨e, {}, p⟩).est =
      { (if e.gateRejects i.env booster (assemble i.records x) then e
          else e.install i.env booster
            (incrementalFitValidation i.env booster (assemble i.records x)).rho) with
        encoder := e.encoder.extend fdicts
        incrementalCount := e.incrementalCount + 1 } := by
  obtain ⟨e', t, h⟩ :=
    retrain_alone_five (some prevModel) p hrows (by rw [hdue]; exact hmodel.symm)
  have he := h.est
  have hreads := h.reads
  rw [hdue, if_neg (by decide)] at he hreads
  have hfull : t.full = false := by rw [h.thread]; exact hdue
  have hrho : t.prevRho = e'.lastRho := by rw [h.thread, he, hdue]; rfl
  have hfit' : i.env.lightgbm (t.fitCall e' (assemble i.records x)) = .ok booster := by
    rw [h.fitCall]
    exact hfit
  rw [retrain_alone_trained h.run h.ok (hreads.trans hx) (by simp [h.prev]) hfit',
    install_evaluate_incremental h.prev hrho, hfull]
  have hgates : e'.gateRejects i.env booster (assemble i.records x) ↔
      e.gateRejects i.env booster (assemble i.records x) := by
    rw [he]
    rfl
  by_cases hgate : e.gateRejects i.env booster (assemble i.records x)
  · rw [if_pos hgate, if_pos (hgates.mpr hgate), he]
    rfl
  · rw [if_neg hgate, if_neg (mt hgates.mp hgate), he]
    rfl

/-- Without the other thread the retrain is `fit`. -/
theorem retrain_alone (i : FitInput) (e : LambdaRankEstimator) (p : PredictThread) :
    (runAlone (retrainStep i) 11 ⟨e, {}, p⟩).est = e.afterFit i := by
  obtain ⟨result, hspec⟩ := e.afterFit_spec i
  generalize e.afterFit i = after at hspec ⊢
  cases hspec with
  | unextracted hrows =>
    have hthree := retrain_alone_three i e p
    have hraised : (RetrainThread.snapshot { full := e.fullRefitDue } i e).raised.isSome := by
      rw [RetrainThread.snapshot, hrows]
      rfl
    rw [retrain_alone_of_raised hthree hraised 8]
  | @fullFailed exc fdicts hdue hrows hwhy =>
    obtain ⟨e', t, h⟩ := retrain_alone_five none p hrows (by rw [hdue]; rfl)
    have he := h.est
    have hreads := h.reads
    rw [hdue, if_pos rfl] at he hreads
    rw [← he]
    refine h.failed exc ?_
    rw [hreads]
    obtain hx | ⟨x, hx, ⟨hgroups, -⟩ | ⟨hgroups, hfit⟩⟩ := hwhy
    · exact .inl hx
    · exact .inr ⟨x, hx, .inl ⟨rfl, hgroups⟩⟩
    · exact .inr ⟨x, hx, .inr ⟨fun _ => hgroups, hfit⟩⟩
  | fullInstalled hdue hrows hx hgroups hfit =>
    obtain ⟨e', t, h⟩ := retrain_alone_five none p hrows (by rw [hdue]; rfl)
    have he := h.est
    have hreads := h.reads
    rw [hdue, if_pos rfl] at he hreads
    have hrejected : t.rejected = false := by rw [h.thread]
    have hfull : t.full = true := by rw [h.thread]; exact hdue
    rw [← h.config] at hgroups
    have hfit' := hfit
    rw [show e.fullFitCall _ = _ from (h.fitCall _).symm] at hfit'
    rw [retrain_alone_trained h.run h.ok (hreads.trans hx) (fun _ => hgroups) hfit',
      install_evaluate_full h.prev hrejected, hfull, he]
    rfl
  | @incrementalFailed exc fdicts prevModel hdue hmodel hrows hwhy =>
    obtain ⟨e', t, h⟩ :=
      retrain_alone_five (some prevModel) p hrows (by rw [hdue]; exact hmodel.symm)
    have he := h.est
    have hreads := h.reads
    rw [hdue, if_neg (by decide)] at he hreads
    rw [← he]
    refine h.failed exc ?_
    rw [hreads]
    obtain hx | ⟨x, hx, hfit⟩ := hwhy
    · exact .inl hx
    · exact .inr ⟨x, hx, .inr ⟨by simp, hfit⟩⟩
  | rejected hdue hmodel hrows hx hfit hgate =>
    rw [retrain_alone_incremental p hdue hmodel hrows hx hfit, if_pos hgate]
  | accepted hdue hmodel hrows hx hfit hgate =>
    rw [retrain_alone_incremental p hdue hmodel hrows hx hfit, if_neg hgate]

end RetrainAlone

/-! ## The prediction alone -/

section PredictAlone
variable {features : List FeatureDict} {s : Shared} {e : LambdaRankEstimator} {r : RetrainThread}
  {t : PredictThread}

theorem predict_alone_of_raised {n : ℕ} (h : runAlone (predictStep features) n s = ⟨e, r, t⟩)
    (hraised : t.raised.isSome) (k : ℕ) :
    runAlone (predictStep features) (n + k) s = ⟨e, r, t⟩ := by
  induction k with
  | zero => exact h
  | succ k ih =>
    rw [← Nat.add_assoc, runAlone_succ, ih]
    exact predictStep_of_raised hraised _

/-- The five steps before the versions are read. -/
theorem predict_alone_five (ht : t.raised = none) :
    runAlone (predictStep features) 5 ⟨e, r, t⟩ =
      match e.model with
      | none => ⟨e, r, { t with model := none }.score features⟩
      | some model =>
        let e' := { e with encoder := e.encoder.extend features }
        match e'.encoder.rows features with
        | .error exc => ⟨e', r, { t with model := some model, raised := some exc }⟩
        | .ok x => ⟨e', r, { t with model := some model, rows := x }.score features⟩ := by
  rw [runAlone_succ, runAlone_succ, runAlone_succ, runAlone_succ, runAlone_succ, runAlone_zero,
    predictStep_of_ok (s := ⟨e, r, t⟩) ht 0]
  simp only [PredictThread.effect, predictAction]
  rw [predictStep_of_ok (s := ⟨e, r, t⟩) ht 1]
  simp only [PredictThread.effect, predictAction]
  rw [predictStep_of_ok (n := 2) (by exact ht)]
  simp only [PredictThread.effect, predictAction]
  rw [predictStep_of_ok (n := 3) (by exact ht)]
  simp only [PredictThread.effect, predictAction]
  cases hmodel : e.model with
  | none =>
    rw [predictStep_of_ok (n := 4) (by exact ht)]
    rfl
  | some model =>
    simp only [Option.isSome_some, if_true, PredictThread.encodeRows]
    cases hx : (e.encoder.extend features).rows features with
    | error exc => rfl
    | ok x =>
      dsimp only
      rw [predictStep_of_ok (n := 4) (by exact ht)]
      rfl

theorem predict_alone_versions (h : runAlone (predictStep features) 5 s = ⟨e, r, t⟩)
    (hok : t.raised = none) (hversions : t.versions = []) (k : ℕ) :
    runAlone (predictStep features) (5 + k) s =
      ⟨e, r, { t with versions := List.replicate k e.version }⟩ := by
  induction k with
  | zero =>
    rw [Nat.add_zero, h, List.replicate_zero, ← hversions]
  | succ k ih =>
    have haction : predictAction (5 + k) = .readVersion := by
      rw [Nat.add_comm]
      rfl
    rw [← Nat.add_assoc, runAlone_succ, ih, predictStep_of_ok (by exact hok), haction]
    simp only [PredictThread.effect, List.replicate_succ']

end PredictAlone

namespace PredictCall

theorem respond_congr {call : PredictCall} {features : List FeatureDict}
    {extractor : FeatureExtractor} {results : List (ℚ × ℚ)} {version version' : ℕ → String}
    (hfeatures : call.features extractor = .ok features) (hlen : results.length = features.length)
    (hversion : ∀ rank < call.versionReads, version rank = version' rank) (modelType : ModelType) :
    call.respond results version modelType = call.respond results version' modelType := by
  cases call with
  | predict taskType payloadSize metadata now =>
    simp only [respond, hversion 0 Nat.zero_lt_one]
  | predictScores candidates =>
    have hcandidates := length_of_mapM_ok hfeatures
    have hranking : scoredTasks (candidates.map Prod.fst) (results.map Prod.fst) version modelType =
        scoredTasks (candidates.map Prod.fst) (results.map Prod.fst) version' modelType := by
      refine scoredTasks_congr ?_ ?_
      · rw [List.length_map, List.length_map]
        omega
      · rw [List.length_map]
        exact hversion
    rw [respond, respond, hranking]

theorem answer_of_one_version {call : PredictCall} {features : List FeatureDict}
    {extractor : FeatureExtractor} {t : PredictThread} {version : String}
    (hfeatures : call.features extractor = .ok features) (hok : t.raised = none)
    (hlen : t.results.length = features.length)
    (hversions : t.versions = List.replicate call.versionReads version) :
    call.answer t = .ok (call.respond t.results (fun _ => version) .lambdarank) := by
  rw [answer, hok, hversions]
  exact congrArg Except.ok
    (respond_congr hfeatures hlen (fun rank hrank => List.getD_replicate version hrank) _)

/-- What a call returns when nothing runs beside it, by the model it finds. -/
theorem run_lambdarank {call : PredictCall} {e : LambdaRankEstimator} {features : List FeatureDict}
    (hfeatures : call.features e.extractor = .ok features) :
    (call.run e.extractor (.lambdarank e)).2 =
      match e.model with
      | none =>
        .ok (call.respond (List.replicate features.length (0, 0)) (fun _ => e.version) .lambdarank)
      | some model =>
        match (e.encoder.extend features).rows features with
        | .error exc => .error exc
        | .ok x =>
          .ok (call.respond ((model.predict x).map fun s => (-s, 8 / 10)) (fun _ => e.version)
            .lambdarank) := by
  cases call with
  | predict taskType payloadSize metadata now =>
    cases hfeatures
    simp only [run, Estimator.predict, LambdaRankEstimator.predict]
    cases hmodel : e.model with
    | none => rfl
    | some model =>
      simp only [Encoder.buildMatrix, Bool.false_eq_true, if_false]
      cases hx : (e.encoder.extend _).rows _ with
      | error exc => rfl
      | ok x =>
        have hlen : (model.predict x).length = 1 := by
          rw [model.predict_length, length_of_mapM_ok hx]
          rfl
        obtain ⟨score, hscore⟩ := List.length_eq_one_iff.mp hlen
        simp only [Except.map, hscore]
        rfl
  | predictScores candidates =>
    cases candidates with
    | nil =>
      cases hfeatures
      cases e.model <;> rfl
    | cons c candidates =>
      rw [PredictCall.features] at hfeatures
      have hlen := length_of_mapM_ok hfeatures
      obtain ⟨f, fs, rfl⟩ := List.exists_cons_of_length_eq_add_one hlen
      simp only [run, hfeatures, Estimator.predictBatch, LambdaRankEstimator.predictBatch]
      cases hmodel : e.model with
      | none => rfl
      | some model =>
        simp only [Encoder.buildMatrix, Bool.false_eq_true, if_false]
        cases hx : (e.encoder.extend (f :: fs)).rows (f :: fs) with
        | error exc => rfl
        | ok x => rfl

theorem run_unextracted {call : PredictCall} {e : LambdaRankEstimator} {exc : PyException}
    (hfeatures : call.features e.extractor = .error exc) :
    (call.run e.extractor (.lambdarank e)).2 = .error exc := by
  cases call with
  | predict taskType payloadSize metadata now => cases hfeatures
  | predictScores candidates =>
    cases candidates with
    | nil => cases hfeatures
    | cons c candidates =>
      rw [PredictCall.features] at hfeatures
      simp only [run, hfeatures]

/-- Without the other thread the prediction is `run`. -/
theorem predict_alone (call : PredictCall) (e : LambdaRankEstimator) :
    call.answer (runAlone (predictStep (call.featureDicts e.extractor)) (5 + call.versionReads)
        (call.start e)).predict =
      (call.run e.extractor (.lambdarank e)).2 := by
  cases hfeatures : call.features e.extractor with
  | error exc =>
    have hstart : runAlone (predictStep (call.featureDicts e.extractor)) 0 (call.start e) =
        ⟨e, {}, { raised := some exc }⟩ := by
      rw [runAlone_zero, start, hfeatures]
    have hall := predict_alone_of_raised hstart rfl (5 + call.versionReads)
    rw [Nat.zero_add] at hall
    rw [hall, run_unextracted hfeatures]
    rfl
  | ok fs =>
    have hdicts : call.featureDicts e.extractor = fs := by rw [featureDicts, hfeatures]
    have hstart : call.start e = ⟨e, {}, {}⟩ := by rw [start, hfeatures]
    have hfive : runAlone (predictStep fs) 5 ⟨e, {}, {}⟩ = _ := predict_alone_five rfl
    rw [hdicts, hstart, run_lambdarank hfeatures]
    cases hmodel : e.model with
    | none =>
      simp only [hmodel] at hfive
      rw [predict_alone_versions hfive rfl rfl]
      have hlen : (PredictThread.score fs {}).results.length = fs.length := List.length_replicate
      exact answer_of_one_version hfeatures rfl hlen rfl
    | some model =>
      simp only [hmodel] at hfive
      cases hx : (e.encoder.extend fs).rows fs with
      | error exc =>
        simp only [hx] at hfive
        rw [predict_alone_of_raised hfive rfl]
        rfl
      | ok x =>
        simp only [hx] at hfive
        rw [predict_alone_versions hfive rfl rfl]
        have hlen : (PredictThread.score fs { model := some model, rows := x }).results.length =
            fs.length := by
          rw [PredictThread.score, List.length_map, model.predict_length, length_of_mapM_ok hx]
        exact answer_of_one_version hfeatures rfl hlen rfl

end PredictCall

end Chronoq.Ranker
