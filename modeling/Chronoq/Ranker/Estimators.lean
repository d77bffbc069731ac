import Chronoq.Ranker.LambdaRank

/-! # The three estimators behind `BaseEstimator`

* `HeuristicEstimator`: mean and standard deviation for each task type.
* `GradientEstimator`: sklearn's `GradientBoostingRegressor` on the four columns of the first version,
  with a heuristic for task types it has not seen.
* `Estimator`: one of these or a `LambdaRankEstimator`, with the methods of the base class.

`TrainEnv` adds to the environment of a LambdaRank fit what the other two take from outside:
`sklearn` is what one `GradientBoostingRegressor(...).fit(x, y)` trains or raises, and `sqrt` the
square root of floats. A gradient fit reads `payload_size` and the `queue_depth` in the metadata of each
record with a bare `float(...)`, and sklearn takes no entry beyond the range of single precision;
`gradient_fit_ok_iff` says when it goes through, `gradient_predict_ok_iff` when a prediction does. -/

namespace Chronoq.Ranker
open Foundations

set_option autoImplicit false

/-! ## `HeuristicEstimator` -/

/-- The entry of a task type in `_stats`. -/
structure TypeEstimate where
  mean : ℚ
  std : ℚ
  count : ℕ
  deriving DecidableEq, Repr

structure HeuristicEstimator where
  stats : Dict String TypeEstimate := ∅
  globalMean : ℚ := 1000
  versionCounter : ℕ := 0
  version : String := "heuristic-v0"

/-- `statistics.stdev`: the square root of the sample variance. -/
def stdev (sqrt : ℚ → ℚ) (xs : List ℚ) : ℚ :=
  sqrt ((xs.map fun x => (x - mean xs) ^ 2).sum / (xs.length - 1))

namespace HeuristicEstimator

def valuesOfType (records : List TaskRecord) (taskType : String) : List ℚ :=
  (records.filter fun r => r.taskType = taskType).map TaskRecord.actualMs

def typeEstimate (sqrt : ℚ → ℚ) (values : List ℚ) : TypeEstimate where
  mean := mean values
  std := if 1 < values.length then stdev sqrt values else 0
  count := values.length

def statsOf (sqrt : ℚ → ℚ) (records : List TaskRecord) : Dict String TypeEstimate :=
  (records.map TaskRecord.taskType).dedup.foldl
    (fun stats taskType =>
      stats.insert taskType (typeEstimate sqrt (valuesOfType records taskType))) ∅

/-- `predict`, by the value under `task_type`. -/
def predictType (h : HeuristicEstimator) (taskType : String) : ℚ × ℚ :=
  if h.stats = ∅ then (1000, 1 / 10)
  else match h.stats.lookup taskType with
    | some s => (s.mean, 1 / (1 + s.std / max s.mean 1))
    | none => (h.globalMean, 3 / 10)

def fit (h : HeuristicEstimator) (sqrt : ℚ → ℚ) (records : List TaskRecord) :
    HeuristicEstimator × FitMetrics :=
  let counter := h.versionCounter + 1
  let h' : HeuristicEstimator :=
    { stats := statsOf sqrt records
      globalMean := if records = [] then h.globalMean else mean (records.map TaskRecord.actualMs)
      versionCounter := counter
      version := "heuristic-v" ++ toString counter }
  let errorOf (r : TaskRecord) := |(h'.predictType r.taskType).1 - r.actualMs|
  (h', { mae := mean (records.map errorOf)
         mape := mean ((records.filter fun r => 0 < r.actualMs).map fun r =>
           errorOf r / r.actualMs) * 100
         samplesUsed := records.length })

end HeuristicEstimator

/-- `features.get("task_type", "")` -/
def taskTypeAt (features : FeatureDict) : String :=
  ((features.lookup "task_type").map FeatureValue.asText).getD ""

/-! ## `GradientEstimator` -/

/-- The check that sklearn makes of a matrix: every entry is a number in single precision. -/
def checkArray (x : List Row) : Except PyException Unit :=
  if x.all fun row => row.all ExtFloat.isSingle then .ok () else .error (.raised "ValueError")

structure Regressor where
  predict : List Row → List ℚ
  predict_length : ∀ rows, (predict rows).length = rows.length

structure TrainEnv extends FitEnv where
  sklearn : List Row → List ℚ → Except PyException Regressor
  sqrt : ℚ → ℚ

structure GradientEstimator where
  model : Option Regressor := none
  labelEncoder : List String := []
  knownTypes : Finset String := ∅
  heuristicFallback : HeuristicEstimator := {}
  versionCounter : ℕ := 0
  version : String := "gradient-v0"
  trainingMae : ℚ := 0
  meanPrediction : ℚ := 1000

namespace GradientEstimator

def featureRow (g : GradientEstimator) (feat : FeatureDict) : Except PyException Row := do
  let taskType := taskTypeAt feat
  let encodedType : ℚ := if taskType ∈ g.knownTypes then g.labelEncoder.idxOf taskType else -1
  let payloadSize ← floatAt feat "payload_size"
  let hourOfDay ← floatAt feat "hour_of_day"
  let queueDepth ← floatAt feat "queue_depth"
  return [.finite encodedType, payloadSize, hourOfDay, queueDepth]

def buildFeatureMatrix (g : GradientEstimator) (feats : List FeatureDict) :
    Except PyException (List Row) :=
  feats.mapM g.featureRow

/-- `LabelEncoder().fit(labels).classes_` -/
def labelClasses (labels : List String) : List String := labels.dedup.insertionSort (· ≤ ·)

/-- What `fit` does before the matrix is built. -/
def prepared (g : GradientEstimator) (env : TrainEnv) (records : List TaskRecord) :
    GradientEstimator :=
  let classes := labelClasses (records.map TaskRecord.taskType)
  { g with
    heuristicFallback := (g.heuristicFallback.fit env.sqrt records).1
    labelEncoder := classes
    knownTypes := classes.toFinset }

/-- The trained estimator and its metrics. Both callers drop an estimator whose `fit` raises. -/
def fit (g : GradientEstimator) (env : TrainEnv) (records : List TaskRecord) :
    Except PyException (GradientEstimator × FitMetrics) := do
  let g := g.prepared env records
  let xAll ← g.buildFeatureMatrix (records.map legacyExtractTrainingFeatures)
  let y := records.map TaskRecord.actualMs
  let splitIdx := records.length * 8 / 10
  let split := 5 ≤ records.length
  let xTrain := if split then xAll.take splitIdx else xAll
  let xTest := if split then xAll.drop splitIdx else xAll
  checkArray xTrain
  let model ← env.sklearn xTrain (if split then y.take splitIdx else y)
  checkArray xTest
  let predictions := model.predict xTest
  let yTest := if split then y.drop splitIdx else y
  let mae := mean (List.zipWith (fun p a => |p - a|) predictions yTest)
  let pctErrors := ((predictions.zip yTest).filter fun p => 0 < p.2).map fun p => |p.1 - p.2| / p.2
  let counter := g.versionCounter + 1
  return ({ g with
      model := some model
      meanPrediction := if predictions = [] then 1000 else mean predictions
      trainingMae := mae
      versionCounter := counter
      version := "gradient-v" ++ toString counter },
    { mae := mae, mape := mean pctErrors * 100, samplesUsed := records.length })

def predict (g : GradientEstimator) (features : FeatureDict) : Except PyException (ℚ × ℚ) :=
  match g.model with
  | none => .ok (g.heuristicFallback.predictType (taskTypeAt features))
  | some model =>
    if taskTypeAt features ∈ g.knownTypes then do
      let xInput ← g.buildFeatureMatrix [features]
      checkArray xInput
      let prediction := max 1 ((model.predict xInput).headD 0)
      return (prediction, max (1 / 10) (min 1 (1 - g.trainingMae / max g.meanPrediction 1)))
    else .ok (g.heuristicFallback.predictType (taskTypeAt features))

end GradientEstimator

/-! ## `BaseEstimator` -/

inductive Estimator
  | heuristic (h : HeuristicEstimator)
  | gradient (g : GradientEstimator)
  | lambdarank (l : LambdaRankEstimator)

namespace Estimator

def modelType : Estimator → ModelType
  | .heuristic _ => .heuristic
  | .gradient _ => .gradientBoosting
  | .lambdarank _ => .lambdarank

def version : Estimator → String
  | .heuristic h => h.version
  | .gradient g => g.version
  | .lambdarank l => l.version

def predict (e : Estimator) (features : FeatureDict) :
    Estimator × Except PyException (ℚ × ℚ) :=
  match e with
  | .heuristic h => (e, .ok (h.predictType (taskTypeAt features)))
  | .gradient g => (e, g.predict features)
  | .lambdarank l => (.lambdarank (l.predict features).1, (l.predict features).2)

def predictBatch (e : Estimator) (featureDicts : List FeatureDict) :
    Estimator × Except PyException (List (ℚ × ℚ)) :=
  match e with
  | .heuristic h => (e, .ok (featureDicts.map fun f => h.predictType (taskTypeAt f)))
  | .gradient g => (e, featureDicts.mapM g.predict)
  | .lambdarank l => (.lambdarank (l.predictBatch featureDicts).1, (l.predictBatch featureDicts).2)

end Estimator

/-! ## When a gradient fit goes through -/

theorem checkArray_ok_iff {x : List Row} :
    (∃ u, checkArray x = .ok u) ↔ ∀ row ∈ x, ∀ entry ∈ row, entry.isSingle = true := by
  unfold checkArray
  split
  · next h =>
    refine iff_of_true ⟨(), rfl⟩ ?_
    simpa only [List.all_eq_true] using h
  · next h =>
    refine iff_of_false ?_ ?_
    · rintro ⟨_, hu⟩
      cases hu
    · simpa only [List.all_eq_true] using h

/-- The conversion returns a number that single precision has too. -/
def FitsSingle (number : Except PyException ExtFloat) : Prop :=
  ∃ x, number = .ok x ∧ x.isSingle = true

/-- What a gradient estimator that knows the given types, in their order, needs of a record: its
`payload_size`, the `queue_depth` in its metadata and the code of its type fit single precision. -/
structure GradientReads (types : List String) (r : TaskRecord) : Prop where
  payloadSize : FitsSingle (floatOfInt r.payloadSize)
  queueDepth : FitsSingle ((r.metadata.lookup "queue_depth").getD (.int 0)).toFloat
  code : (ExtFloat.finite (types.idxOf r.taskType : ℕ)).isSingle = true

/-- Every record can be read by the estimator that is trained on all of them. -/
def GradientReadsAll (records : List TaskRecord) : Prop :=
  ∀ r ∈ records, GradientReads (GradientEstimator.labelClasses (records.map TaskRecord.taskType)) r

section Legacy
variable (taskType : String) (payloadSize hour : ℤ) (queueDepth : Option PyValue)

theorem legacy_floatAt_queueDepth :
    floatAt (legacyFeatures taskType payloadSize hour queueDepth) "queue_depth" =
      (queueDepth.getD (.int 0)).toFloat := by
  rw [floatAt, legacyFeatures, dictOf]
  simp only [List.foldl_cons, List.foldl_nil, Finmap.lookup_insert, Option.map_some, Option.getD_some]
  cases queueDepth.getD (.int 0) <;> rfl

theorem legacy_floatAt_payloadSize :
    floatAt (legacyFeatures taskType payloadSize hour queueDepth) "payload_size" =
      floatOfInt payloadSize := by
  rw [floatAt, legacyFeatures, dictOf]
  simp only [List.foldl_cons, List.foldl_nil]
  rw [Finmap.lookup_insert_of_ne _ (by decide), Finmap.lookup_insert_of_ne _ (by decide),
    Finmap.lookup_insert]
  rfl

theorem legacy_floatAt_hourOfDay :
    floatAt (legacyFeatures taskType payloadSize hour queueDepth) "hour_of_day" = floatOfInt hour := by
  rw [floatAt, legacyFeatures, dictOf]
  simp only [List.foldl_cons, List.foldl_nil]
  rw [Finmap.lookup_insert_of_ne _ (by decide), Finmap.lookup_insert]
  rfl

theorem legacy_taskTypeAt :
    taskTypeAt (legacyFeatures taskType payloadSize hour queueDepth) = taskType := by
  rw [taskTypeAt, legacyFeatures, dictOf]
  simp only [List.foldl_cons, List.foldl_nil]
  rw [Finmap.lookup_insert_of_ne _ (by decide), Finmap.lookup_insert_of_ne _ (by decide),
    Finmap.lookup_insert_of_ne _ (by decide), Finmap.lookup_insert]
  rfl

end Legacy

/-- What the estimator needs of a feature dictionary of a known type: its numbers fit. -/
structure GradientEstimator.Takes (g : GradientEstimator) (feat : FeatureDict) : Prop where
  payloadSize : FitsSingle (floatAt feat "payload_size")
  hourOfDay : FitsSingle (floatAt feat "hour_of_day")
  queueDepth : FitsSingle (floatAt feat "queue_depth")
  code : (ExtFloat.finite (g.labelEncoder.idxOf (taskTypeAt feat) : ℕ)).isSingle = true

/-- The row of a known type is built and passes the check of sklearn exactly if its numbers fit. -/
theorem gradient_row_accepted_iff {g : GradientEstimator} {feat : FeatureDict}
    (hknown : taskTypeAt feat ∈ g.knownTypes) :
    (∃ row, g.featureRow feat = .ok row ∧ ∀ entry ∈ row, entry.isSingle = true) ↔ g.Takes feat := by
  have htakes : g.Takes feat ↔ FitsSingle (floatAt feat "payload_size") ∧
      FitsSingle (floatAt feat "hour_of_day") ∧ FitsSingle (floatAt feat "queue_depth") ∧
      (ExtFloat.finite (g.labelEncoder.idxOf (taskTypeAt feat) : ℕ)).isSingle = true :=
    ⟨fun h => ⟨h.1, h.2, h.3, h.4⟩, fun h => ⟨h.1, h.2.1, h.2.2.1, h.2.2.2⟩⟩
  rw [htakes]
  unfold GradientEstimator.featureRow FitsSingle
  dsimp only
  rw [if_pos hknown]
  cases floatAt feat "payload_size" with
  | error exc => simp [bind, Except.bind]
  | ok payloadSize =>
    cases floatAt feat "hour_of_day" with
    | error exc => simp [bind, Except.bind]
    | ok hourOfDay =>
      cases floatAt feat "queue_depth" with
      | error exc => simp [bind, Except.bind]
      | ok queueDepth =>
        simp [bind, Except.bind, pure, Except.pure]
        tauto

/-- A prediction returns unless the model is there, knows the type and cannot take the numbers. -/
theorem gradient_predict_ok_iff {g : GradientEstimator} {feat : FeatureDict} :
    (∃ scored, g.predict feat = .ok scored) ↔
      (g.model ≠ none → taskTypeAt feat ∈ g.knownTypes → g.Takes feat) := by
  unfold GradientEstimator.predict
  cases g.model with
  | none => simp
  | some model =>
    dsimp only
    by_cases hknown : taskTypeAt feat ∈ g.knownTypes
    · rw [if_pos hknown]
      refine Iff.trans ?_ ((gradient_row_accepted_iff hknown).trans
        ⟨fun h _ _ => h, fun h => h (Option.some_ne_none _) hknown⟩)
      -- one row is built and checked
      simp only [GradientEstimator.buildFeatureMatrix, List.mapM_cons, List.mapM_nil, bind,
        Except.bind, pure, Except.pure]
      cases hfeatures : g.featureRow feat with
      | error exc =>
        refine iff_of_false (by simp) ?_
        rintro ⟨row, hrow, -⟩
        cases hrow
      | ok row =>
        have hcheck := checkArray_ok_iff (x := [row])
        rw [List.forall_mem_singleton] at hcheck
        constructor
        · rintro ⟨scored, hscored⟩
          refine ⟨row, rfl, hcheck.mp ?_⟩
          dsimp only at hscored
          split at hscored
          · cases hscored
          · next u hu => exact ⟨u, hu⟩
        · rintro ⟨row', hrow, haccepted⟩
          cases hrow
          obtain ⟨u, hu⟩ := hcheck.mpr haccepted
          simp only [hu]
          exact ⟨_, rfl⟩
    · simp [hknown]

theorem legacy_takes_iff (g : GradientEstimator) (taskType : String) (payloadSize : ℤ) (t : Instant)
    (queueDepth : Option PyValue) :
    g.Takes (legacyFeatures taskType payloadSize (hourOf t) queueDepth) ↔
      FitsSingle (floatOfInt payloadSize) ∧ FitsSingle (queueDepth.getD (.int 0)).toFloat ∧
        (ExtFloat.finite (g.labelEncoder.idxOf taskType : ℕ)).isSingle = true := by
  have hhour : FitsSingle (floatOfInt (hourOf t)) := by
    refine ⟨_, floatOfInt_hourOf t, isSingle_intCast ?_⟩
    rw [hourOf]
    omega
  constructor
  · rintro ⟨hsize, -, hdepth, hcode⟩
    rw [legacy_floatAt_payloadSize] at hsize
    rw [legacy_floatAt_queueDepth] at hdepth
    rw [legacy_taskTypeAt] at hcode
    exact ⟨hsize, hdepth, hcode⟩
  · rintro ⟨hsize, hdepth, hcode⟩
    refine ⟨?_, ?_, ?_, ?_⟩
    · rw [legacy_floatAt_payloadSize]
      exact hsize
    · rw [legacy_floatAt_hourOfDay]
      exact hhour
    · rw [legacy_floatAt_queueDepth]
      exact hdepth
    · rw [legacy_taskTypeAt]
      exact hcode

/-- A gradient estimator goes through its matrix: the rows are built and all entries fit. -/
theorem gradient_matrix_accepted_iff {g : GradientEstimator} {records : List TaskRecord}
    (hknown : ∀ r ∈ records, r.taskType ∈ g.knownTypes) :
    (∃ x, g.buildFeatureMatrix (records.map legacyExtractTrainingFeatures) = .ok x ∧
        ∀ row ∈ x, ∀ entry ∈ row, entry.isSingle = true) ↔
      ∀ r ∈ records, GradientReads g.labelEncoder r := by
  have hrow : ∀ r ∈ records, (∃ row, g.featureRow (legacyExtractTrainingFeatures r) = .ok row ∧
      ∀ entry ∈ row, entry.isSingle = true) ↔ GradientReads g.labelEncoder r := fun r hr => by
    have htype : taskTypeAt (legacyExtractTrainingFeatures r) ∈ g.knownTypes := by
      rw [legacyExtractTrainingFeatures, legacy_taskTypeAt]
      exact hknown r hr
    rw [gradient_row_accepted_iff htype, legacyExtractTrainingFeatures, legacy_takes_iff]
    exact ⟨fun ⟨hsize, hdepth, hcode⟩ => ⟨hsize, hdepth, hcode⟩, fun h => ⟨h.1, h.2, h.3⟩⟩
  rw [GradientEstimator.buildFeatureMatrix]
  constructor
  · rintro ⟨x, hx, haccepted⟩ r hr
    obtain ⟨row, hmem, hfeatures⟩ :=
      exists_mem_of_mapM_ok hx (List.mem_map_of_mem (f := legacyExtractTrainingFeatures) hr)
    exact (hrow r hr).mp ⟨row, hfeatures, haccepted row hmem⟩
  · intro hreads
    have hok : ∀ feat ∈ records.map legacyExtractTrainingFeatures, ∃ row, g.featureRow feat = .ok row := by
      rw [List.forall_mem_map]
      intro r hr
      obtain ⟨row, hfeatures, -⟩ := (hrow r hr).mpr (hreads r hr)
      exact ⟨row, hfeatures⟩
    obtain ⟨x, hx⟩ := exists_mapM_ok hok
    refine ⟨x, hx, fun row hmem => ?_⟩
    obtain ⟨feat, hfeat, hfeatures⟩ := exists_of_mem_mapM_ok hx hmem
    obtain ⟨r, hr, rfl⟩ := List.mem_map.mp hfeat
    obtain ⟨row', hfeatures', haccepted⟩ := (hrow r hr).mpr (hreads r hr)
    rw [hfeatures] at hfeatures'
    cases hfeatures'
    exact haccepted

theorem mem_labelClasses {labels : List String} {label : String} :
    label ∈ GradientEstimator.labelClasses labels ↔ label ∈ labels := by
  rw [GradientEstimator.labelClasses, List.mem_insertionSort, List.mem_dedup]

theorem mem_knownTypes_prepared {g : GradientEstimator} {env : TrainEnv} {records : List TaskRecord}
    {r : TaskRecord} (hr : r ∈ records) : r.taskType ∈ (g.prepared env records).knownTypes := by
  show r.taskType ∈ (GradientEstimator.labelClasses (records.map TaskRecord.taskType)).toFinset
  rw [List.mem_toFinset, mem_labelClasses]
  exact List.mem_map_of_mem hr

/-- With a regressor that trains on anything that passes the check, a gradient fit returns exactly when
it can read every record. -/
theorem gradient_fit_ok_iff {env : TrainEnv} (hsklearn : ∀ x y, ∃ model, env.sklearn x y = .ok model)
    (g : GradientEstimator) (records : List TaskRecord) :
    (∃ fitted, g.fit env records = .ok fitted) ↔ GradientReadsAll records := by
  have hmatrix := gradient_matrix_accepted_iff
    (show ∀ r ∈ records, r.taskType ∈ (g.prepared env records).knownTypes from
      fun r hr => mem_knownTypes_prepared hr)
  have hreads : GradientReadsAll records ↔
      ∀ r ∈ records, GradientReads (g.prepared env records).labelEncoder r := Iff.rfl
  rw [hreads, ← hmatrix, GradientEstimator.fit]
  cases hx : (g.prepared env records).buildFeatureMatrix
      (records.map legacyExtractTrainingFeatures) with
  | error exc =>
    constructor
    · rintro ⟨fitted, hfitted⟩
      cases hfitted
    · rintro ⟨x, hx', -⟩
      cases hx'
  | ok xAll =>
    -- a matrix is accepted if the rows trained on and those held back are
    have hparts : (∃ x, Except.ok (ε := PyException) xAll = .ok x ∧
        ∀ row ∈ x, ∀ entry ∈ row, entry.isSingle = true) ↔
        (∃ u, checkArray (if 5 ≤ records.length then xAll.take (records.length * 8 / 10) else xAll) =
          .ok u) ∧
        ∃ u, checkArray (if 5 ≤ records.length then xAll.drop (records.length * 8 / 10) else xAll) =
          .ok u := by
      rw [checkArray_ok_iff, checkArray_ok_iff]
      split
      · rw [← List.forall_mem_append, List.take_append_drop]
        simp
      · simp
    rw [hparts]
    simp only [bind, Except.bind]
    cases checkArray (if 5 ≤ records.length then xAll.take (records.length * 8 / 10) else xAll) with
    | error exc => simp
    | ok u =>
      obtain ⟨model, hmodel⟩ := hsklearn
        (if 5 ≤ records.length then xAll.take (records.length * 8 / 10) else xAll)
        (if 5 ≤ records.length then (records.map TaskRecord.actualMs).take (records.length * 8 / 10)
          else records.map TaskRecord.actualMs)
      simp only [hmodel]
      cases checkArray (if 5 ≤ records.length then xAll.drop (records.length * 8 / 10) else xAll) with
      | error exc => simp
      | ok u' => exact iff_of_true ⟨_, rfl⟩ (by simp)

/-- What a gradient fit that returns has changed in the estimator, apart from the regressor and what is
computed from its predictions. -/
theorem gradient_fit_spec {g : GradientEstimator} {env : TrainEnv} {records : List TaskRecord}
    {fitted : GradientEstimator × FitMetrics} (h : g.fit env records = .ok fitted) :
    fitted.1.heuristicFallback = (g.heuristicFallback.fit env.sqrt records).1 ∧
      fitted.1.labelEncoder = GradientEstimator.labelClasses (records.map TaskRecord.taskType) ∧
      fitted.1.version = "gradient-v" ++ toString (g.versionCounter + 1) ∧
      fitted.2.rejected = false := by
  unfold GradientEstimator.fit at h
  simp only [bind, Except.bind] at h
  split at h
  · cases h
  · split at h
    · cases h
    · split at h
      · cases h
      · split at h
        · cases h
        · cases h
          exact ⟨rfl, rfl, rfl, rfl⟩

end Chronoq.Ranker
