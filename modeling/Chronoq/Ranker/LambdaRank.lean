import Chronoq.Ranker.Preparation
import Chronoq.Ranker.RankMetrics

/-! # `LambdaRankEstimator`

The estimator's attributes and its methods, each a function that returns the estimator it leaves
together with what it returns or raises. LightGBM is outside the repository: `FitEnv.lightgbm` is
what one `LGBMRanker(...).fit(...)` trains or raises, for the arguments collected in a `FitCall`, and
a `Booster` is any function that scores the rows of a matrix. `FitEnv.stamp` is the clock reading
that goes into the version string.

`FitStep` lists the ways a `fit` can end, with everything it changes in each of them, and `fit_spec`
says that there are no others. -/

namespace Chronoq.Ranker
open Foundations

set_option autoImplicit false

/-! ## LightGBM -/

structure Booster where
  predict : List Row → List ℚ
  predict_length : ∀ rows, (predict rows).length = rows.length

def catColIndices : List ℕ := (List.range catCols.length).map (numericCols.length + ·)

/-- The arguments of one `LGBMRanker(...).fit(...)`. -/
structure FitCall where
  learningRate : ℚ
  nEstimators : ℤ
  numLeaves : ℤ
  minDataInLeaf : ℤ
  x : List Row
  y : List ℤ
  group : List ℕ
  categoricalFeature : List ℕ := catColIndices
  evalSet : Option (List Row × List ℤ × List ℕ) := none
  initModel : Option Booster := none

structure FitEnv where
  lightgbm : FitCall → Except PyException Booster
  argsort : List ℚ → List ℕ
  stamp : String

/-! ## State -/

structure LambdaRankEstimator where
  config : RankerConfig
  extractor : FeatureExtractor
  model : Option Booster
  encoder : Encoder
  versionStr : String
  lastRho : ℚ
  incrementalCount : ℕ
  versionCounter : ℕ

def LambdaRankEstimator.new (config : RankerConfig) (extractor : FeatureExtractor) :
    LambdaRankEstimator where
  config := config
  extractor := extractor
  model := none
  encoder := ∅
  versionStr := ""
  lastRho := 0
  incrementalCount := 0
  versionCounter := 0

/-- The dictionary that `fit` returns, for every kind of estimator. -/
structure FitMetrics where
  mae : ℚ
  mape : ℚ
  samplesUsed : ℕ
  spearmanRho : Option ℚ := none
  pairwiseAccuracy : Option ℚ := none
  kendallTau : Option ℚ := none
  rejected : Bool := false

def rhoRejectionDelta : ℚ := 1 / 10

def makeVersion (stamp : String) (counter : ℕ) : String :=
  let digits := toString counter
  "lambdarank-v" ++ stamp ++ "-" ++ String.ofList (List.replicate (4 - digits.length) '0') ++ digits

/-- The three ranking metrics of a trained model on the validation rows. -/
structure Validation where
  rho : ℚ
  pairwiseAcc : ℚ
  tau : ℚ

def noValidation : Validation := ⟨0, 1, 0⟩

def validate (env : FitEnv) (booster : Booster) (d : Prepared) : Validation :=
  let valScores := booster.predict d.xVal
  let labels := d.yVal.map fun (label : ℤ) => (label : ℚ)
  { rho := spearmanRhoGrouped env.argsort valScores labels d.groupsVal
    pairwiseAcc := pairwiseAccuracyGrouped valScores labels d.groupsVal
    tau := kendallTauGrouped valScores labels d.groupsVal }

/-- The validation of a full fit, which needs a validation group and two rows. -/
def fullFitValidation (env : FitEnv) (booster : Booster) (d : Prepared) : Validation :=
  if 0 < d.groupsVal.length ∧ 2 ≤ d.xVal.length then validate env booster d else noValidation

/-- The validation of an incremental fit, which needs two rows. -/
def incrementalFitValidation (env : FitEnv) (booster : Booster) (d : Prepared) : Validation :=
  if 2 ≤ d.xVal.length then validate env booster d else noValidation

namespace LambdaRankEstimator

/-! ## Fitting -/

def fullFitCall (e : LambdaRankEstimator) (d : Prepared) : FitCall where
  learningRate := e.config.learningRate
  nEstimators := e.config.nEstimators
  numLeaves := e.config.numLeaves
  minDataInLeaf := e.config.minDataInLeaf
  x := d.xTrain
  y := d.yTrain
  group := d.groupsTrain
  evalSet := if 0 < d.groupsVal.length ∧ 0 < d.xVal.length then
    some (d.xVal, d.yVal, d.groupsVal) else none

def incrementalFitCall (e : LambdaRankEstimator) (prevModel : Booster) (d : Prepared) : FitCall where
  learningRate := e.config.learningRate
  nEstimators := e.config.incrementalRounds
  numLeaves := e.config.numLeaves
  minDataInLeaf := e.config.minDataInLeaf
  x := d.xTrain
  y := d.yTrain
  group := d.groupsTrain
  initModel := some prevModel

/-- The block that swaps the model in, which both fit paths end with. -/
def install (e : LambdaRankEstimator) (env : FitEnv) (booster : Booster) (rho : ℚ) :
    LambdaRankEstimator :=
  { e with
    model := some booster
    lastRho := rho
    versionCounter := e.versionCounter + 1
    versionStr := makeVersion env.stamp (e.versionCounter + 1) }

def metricsOf (v : Validation) (records : List TaskRecord) : FitMetrics where
  mae := 0
  mape := 0
  samplesUsed := records.length
  spearmanRho := some v.rho
  pairwiseAccuracy := some v.pairwiseAcc
  kendallTau := some v.tau

def fullFit (e : LambdaRankEstimator) (env : FitEnv) (records : List TaskRecord) :
    LambdaRankEstimator × Except PyException FitMetrics :=
  let (encoder, prepared) := prepareData e.extractor e.encoder records true
  let e' := { e with encoder := encoder }
  match prepared with
  | .error exc => (e', .error exc)
  | .ok d =>
    let nValidGroups := d.groupsTrain.length + d.groupsVal.length
    if (nValidGroups : ℤ) < e.config.minGroups then
      (e', .error (.insufficientGroups nValidGroups e.config.minGroups))
    else
      match env.lightgbm (e.fullFitCall d) with
      | .error exc => (e', .error exc)
      | .ok booster =>
        let v := fullFitValidation env booster d
        (e'.install env booster v.rho, .ok (metricsOf v records))

/-- Reject a model whose rho has dropped by more than the allowed delta. -/
def gateRejects (e : LambdaRankEstimator) (env : FitEnv) (booster : Booster) (d : Prepared) : Prop :=
  2 ≤ d.xVal.length ∧
    (incrementalFitValidation env booster d).rho < e.lastRho - rhoRejectionDelta

instance (e : LambdaRankEstimator) (env : FitEnv) (booster : Booster) (d : Prepared) :
    Decidable (e.gateRejects env booster d) :=
  inferInstanceAs (Decidable (_ ∧ _))

def incrementalFit (e : LambdaRankEstimator) (env : FitEnv) (records : List TaskRecord) :
    LambdaRankEstimator × Except PyException FitMetrics :=
  match e.model with
  | none => e.fullFit env records
  | some prevModel =>
    let (encoder, prepared) := prepareData e.extractor e.encoder records false
    let e' := { e with encoder := encoder }
    match prepared with
    | .error exc => (e', .error exc)
    | .ok d =>
      match env.lightgbm (e.incrementalFitCall prevModel d) with
      | .error exc => (e', .error exc)
      | .ok booster =>
        let v := incrementalFitValidation env booster d
        if e.gateRejects env booster d then
          (e', .ok { metricsOf v records with spearmanRho := some e.lastRho, rejected := true })
        else (e'.install env booster v.rho, .ok (metricsOf v records))

def fullRefitDue (e : LambdaRankEstimator) : Bool :=
  e.model.isNone || e.config.fullRefitEveryNIncrementals ≤ e.incrementalCount

def fit (e : LambdaRankEstimator) (env : FitEnv) (records : List TaskRecord) :
    LambdaRankEstimator × Except PyException FitMetrics :=
  if e.fullRefitDue then
    match e.fullFit env records with
    | (e, .ok metrics) => ({ e with incrementalCount := 0 }, .ok metrics)
    | (e, .error exc) => (e, .error exc)
  else
    match e.incrementalFit env records with
    | (e, .ok metrics) => ({ e with incrementalCount := e.incrementalCount + 1 }, .ok metrics)
    | (e, .error exc) => (e, .error exc)

/-! ## Prediction -/

def predict (e : LambdaRankEstimator) (features : FeatureDict) :
    LambdaRankEstimator × Except PyException (ℚ × ℚ) :=
  match e.model with
  | none => (e, .ok (0, 0))
  | some model =>
    let (encoder, xMat) := e.encoder.buildMatrix [features] false
    ({ e with encoder := encoder }, xMat.map fun x => (-(model.predict x).headD 0, 8 / 10))

def predictBatch (e : LambdaRankEstimator) (featureDicts : List FeatureDict) :
    LambdaRankEstimator × Except PyException (List (ℚ × ℚ)) :=
  match featureDicts with
  | [] => (e, .ok [])
  | featureDicts =>
    match e.model with
    | none => (e, .ok (List.replicate featureDicts.length (0, 0)))
    | some model =>
      let (encoder, xMat) := e.encoder.buildMatrix featureDicts false
      ({ e with encoder := encoder }, xMat.map fun x => (model.predict x).map fun s => (-s, 8 / 10))

def version (e : LambdaRankEstimator) : String :=
  if e.versionStr = "" then "lambdarank-unfit-v0" else e.versionStr

/-! ## The ways a `fit` ends -/

/-- `FitStep env records e e' result`: `fit` turns `e` into `e'` and returns or raises `result`. -/
inductive FitStep (env : FitEnv) (records : List TaskRecord) (e : LambdaRankEstimator) :
    LambdaRankEstimator → Except PyException FitMetrics → Prop
  /-- The extractor raises before anything is changed. -/
  | unextracted {exc : PyException} (hrows : featureRows e.extractor records = .error exc) :
    FitStep env records e e (.error exc)
  /-- A full fit raises after the encoder has been rebuilt. -/
  | fullFailed {exc : PyException} {fdicts : List FeatureDict} (hdue : e.fullRefitDue = true)
    (hrows : featureRows e.extractor records = .ok fdicts)
    (hwhy : (Encoder.fresh.extend fdicts).rows fdicts = .error exc ∨
      ∃ x, (Encoder.fresh.extend fdicts).rows fdicts = .ok x ∧
        ((((validGroupIds records).length : ℤ) < e.config.minGroups ∧
            exc = .insufficientGroups (validGroupIds records).length e.config.minGroups) ∨
          (e.config.minGroups ≤ (validGroupIds records).length ∧
            env.lightgbm (e.fullFitCall (assemble records x)) = .error exc))) :
    FitStep env records e { e with encoder := Encoder.fresh.extend fdicts } (.error exc)
  | fullInstalled {fdicts : List FeatureDict} {x : List Row} {booster : Booster}
    (hdue : e.fullRefitDue = true) (hrows : featureRows e.extractor records = .ok fdicts)
    (hx : (Encoder.fresh.extend fdicts).rows fdicts = .ok x)
    (hgroups : e.config.minGroups ≤ (validGroupIds records).length)
    (hfit : env.lightgbm (e.fullFitCall (assemble records x)) = .ok booster) :
    FitStep env records e
      { (e.install env booster (fullFitValidation env booster (assemble records x)).rho) with
        encoder := Encoder.fresh.extend fdicts
        incrementalCount := 0 }
      (.ok (metricsOf (fullFitValidation env booster (assemble records x)) records))
  /-- An incremental fit raises after the encoder has been extended. -/
  | incrementalFailed {exc : PyException} {fdicts : List FeatureDict} {prevModel : Booster}
    (hdue : e.fullRefitDue = false) (hmodel : e.model = some prevModel)
    (hrows : featureRows e.extractor records = .ok fdicts)
    (hwhy : (e.encoder.extend fdicts).rows fdicts = .error exc ∨
      ∃ x, (e.encoder.extend fdicts).rows fdicts = .ok x ∧
        env.lightgbm (e.incrementalFitCall prevModel (assemble records x)) = .error exc) :
    FitStep env records e { e with encoder := e.encoder.extend fdicts } (.error exc)
  | rejected {fdicts : List FeatureDict} {x : List Row} {booster prevModel : Booster}
    (hdue : e.fullRefitDue = false) (hmodel : e.model = some prevModel)
    (hrows : featureRows e.extractor records = .ok fdicts)
    (hx : (e.encoder.extend fdicts).rows fdicts = .ok x)
    (hfit : env.lightgbm (e.incrementalFitCall prevModel (assemble records x)) = .ok booster)
    (hgate : e.gateRejects env booster (assemble records x)) :
    FitStep env records e
      { e with
        encoder := e.encoder.extend fdicts
        incrementalCount := e.incrementalCount + 1 }
      (.ok { metricsOf (incrementalFitValidation env booster (assemble records x)) records with
        spearmanRho := some e.lastRho
        rejected := true })
  | accepted {fdicts : List FeatureDict} {x : List Row} {booster prevModel : Booster}
    (hdue : e.fullRefitDue = false) (hmodel : e.model = some prevModel)
    (hrows : featureRows e.extractor records = .ok fdicts)
    (hx : (e.encoder.extend fdicts).rows fdicts = .ok x)
    (hfit : env.lightgbm (e.incrementalFitCall prevModel (assemble records x)) = .ok booster)
    (hgate : ¬ e.gateRejects env booster (assemble records x)) :
    FitStep env records e
      { (e.install env booster (incrementalFitValidation env booster (assemble records x)).rho) with
        encoder := e.encoder.extend fdicts
        incrementalCount := e.incrementalCount + 1 }
      (.ok (metricsOf (incrementalFitValidation env booster (assemble records x)) records))

theorem fullFit_unextracted {e : LambdaRankEstimator} {env : FitEnv} {records : List TaskRecord}
    {exc : PyException} (hrows : featureRows e.extractor records = .error exc) :
    e.fullFit env records = (e, .error exc) := by
  rw [fullFit, prepareData_error hrows]

theorem fullFit_extracted {e : LambdaRankEstimator} {env : FitEnv} {records : List TaskRecord}
    {fdicts : List FeatureDict} (hrows : featureRows e.extractor records = .ok fdicts) :
    e.fullFit env records =
      match (Encoder.fresh.extend fdicts).rows fdicts with
      | .error exc => ({ e with encoder := Encoder.fresh.extend fdicts }, .error exc)
      | .ok x =>
        if ((validGroupIds records).length : ℤ) < e.config.minGroups then
          ({ e with encoder := Encoder.fresh.extend fdicts },
            .error (.insufficientGroups (validGroupIds records).length e.config.minGroups))
        else
          match env.lightgbm (e.fullFitCall (assemble records x)) with
          | .error exc => ({ e with encoder := Encoder.fresh.extend fdicts }, .error exc)
          | .ok booster =>
            (({ e with encoder := Encoder.fresh.extend fdicts } : LambdaRankEstimator).install env
                booster (fullFitValidation env booster (assemble records x)).rho,
              .ok (metricsOf (fullFitValidation env booster (assemble records x)) records)) := by
  rw [fullFit, prepareData_ok hrows]
  simp only [if_true]
  cases (Encoder.fresh.extend fdicts).rows fdicts with
  | error exc => rfl
  | ok x =>
    simp only [Except.map, assemble_groups records x]

theorem incrementalFit_unextracted {e : LambdaRankEstimator} {env : FitEnv}
    {records : List TaskRecord} {exc : PyException} {prevModel : Booster}
    (hmodel : e.model = some prevModel) (hrows : featureRows e.extractor records = .error exc) :
    e.incrementalFit env records = (e, .error exc) := by
  unfold incrementalFit
  split
  · next hnone =>
    rw [hmodel] at hnone
    cases hnone
  · rw [prepareData_error hrows]

theorem incrementalFit_extracted {e : LambdaRankEstimator} {env : FitEnv}
    {records : List TaskRecord} {prevModel : Booster} {fdicts : List FeatureDict}
    (hmodel : e.model = some prevModel) (hrows : featureRows e.extractor records = .ok fdicts) :
    e.incrementalFit env records =
      match (e.encoder.extend fdicts).rows fdicts with
      | .error exc => ({ e with encoder := e.encoder.extend fdicts }, .error exc)
      | .ok x =>
        match env.lightgbm (e.incrementalFitCall prevModel (assemble records x)) with
        | .error exc => ({ e with encoder := e.encoder.extend fdicts }, .error exc)
        | .ok booster =>
          if e.gateRejects env booster (assemble records x) then
            ({ e with encoder := e.encoder.extend fdicts },
              .ok { metricsOf (incrementalFitValidation env booster (assemble records x)) records with
                spearmanRho := some e.lastRho
                rejected := true })
          else
            (({ e with encoder := e.encoder.extend fdicts } : LambdaRankEstimator).install env
                booster (incrementalFitValidation env booster (assemble records x)).rho,
              .ok (metricsOf (incrementalFitValidation env booster (assemble records x)) records)) := by
  unfold incrementalFit
  split
  · next hnone =>
    rw [hmodel] at hnone
    cases hnone
  · next hsome =>
    rw [hmodel] at hsome
    cases hsome
    rw [prepareData_ok hrows]
    simp only [Bool.false_eq_true, if_false]
    cases (e.encoder.extend fdicts).rows fdicts with
    | error exc => rfl
    | ok x => rfl

theorem fit_spec (e : LambdaRankEstimator) (env : FitEnv) (records : List TaskRecord) :
    FitStep env records e (e.fit env records).1 (e.fit env records).2 := by
  cases hdue : e.fullRefitDue with
  | true =>
    rw [fit, if_pos hdue]
    cases hrows : featureRows e.extractor records with
    | error exc =>
      rw [fullFit_unextracted hrows]
      exact .unextracted hrows
    | ok fdicts =>
      rw [fullFit_extracted hrows]
      cases hx : (Encoder.fresh.extend fdicts).rows fdicts with
      | error exc => exact .fullFailed hdue hrows (.inl hx)
      | ok x =>
        by_cases hgroups : ((validGroupIds records).length : ℤ) < e.config.minGroups
        · simp only [if_pos hgroups]
          exact .fullFailed hdue hrows (.inr ⟨x, hx, .inl ⟨hgroups, rfl⟩⟩)
        · simp only [if_neg hgroups]
          cases hfit : env.lightgbm (e.fullFitCall (assemble records x)) with
          | error exc =>
            exact .fullFailed hdue hrows (.inr ⟨x, hx, .inr ⟨not_lt.mp hgroups, hfit⟩⟩)
          | ok booster => exact .fullInstalled hdue hrows hx (not_lt.mp hgroups) hfit
  | false =>
    rw [fit, if_neg (by simp [hdue])]
    obtain ⟨prevModel, hmodel⟩ : ∃ prevModel, e.model = some prevModel := by
      simp only [fullRefitDue, Bool.or_eq_false_iff, Option.isNone_eq_false_iff,
        Option.isSome_iff_exists] at hdue
      exact hdue.1
    cases hrows : featureRows e.extractor records with
    | error exc =>
      rw [incrementalFit_unextracted hmodel hrows]
      exact .unextracted hrows
    | ok fdicts =>
      rw [incrementalFit_extracted hmodel hrows]
      cases hx : (e.encoder.extend fdicts).rows fdicts with
      | error exc => exact .incrementalFailed hdue hmodel hrows (.inl hx)
      | ok x =>
        dsimp only
        cases hfit : env.lightgbm (e.incrementalFitCall prevModel (assemble records x)) with
        | error exc => exact .incrementalFailed hdue hmodel hrows (.inr ⟨x, hx, hfit⟩)
        | ok booster =>
          by_cases hgate : e.gateRejects env booster (assemble records x)
          · simp only [if_pos hgate]
            exact .rejected hdue hmodel hrows hx hfit hgate
          · simp only [if_neg hgate]
            exact .accepted hdue hmodel hrows hx hfit hgate

end LambdaRankEstimator

end Chronoq.Ranker
