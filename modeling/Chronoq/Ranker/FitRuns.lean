import Chronoq.Foundations.Transition
import Chronoq.Ranker.LambdaRank

/-! # Runs of `fit` calls on one estimator

A `FitInput` is everything a `fit` does not take from the estimator: the records, and what LightGBM,
`argsort` and the clock do during the call. A run is any sequence of such calls. -/

namespace Chronoq.Ranker
open Foundations

set_option autoImplicit false

structure FitInput where
  env : FitEnv
  records : List TaskRecord

namespace LambdaRankEstimator

def afterFit (e : LambdaRankEstimator) (i : FitInput) : LambdaRankEstimator :=
  (e.fit i.env i.records).1

abbrev FitSteps : LambdaRankEstimator → FitInput → LambdaRankEstimator → Prop :=
  fun e i e' => e.afterFit i = e'

theorem FitSteps.unique (e : LambdaRankEstimator) (i : FitInput) (e' e'' : LambdaRankEstimator)
    (h : FitSteps e i e') (h' : FitSteps e i e'') : e' = e'' :=
  h.symm.trans h'

/-- A newly trained model has been swapped in: every installation gives the next version number. -/
def Installs (e : LambdaRankEstimator) (i : FitInput) : Prop :=
  (e.afterFit i).versionCounter ≠ e.versionCounter

instance (e : LambdaRankEstimator) (i : FitInput) : Decidable (e.Installs i) :=
  inferInstanceAs (Decidable (_ ≠ _))

/-! ## What a call does to the installed model -/

theorem afterFit_spec (e : LambdaRankEstimator) (i : FitInput) :
    ∃ result, FitStep i.env i.records e (e.afterFit i) result :=
  ⟨_, fit_spec e i.env i.records⟩

/-- The configuration and the extractor of an estimator never change. -/
theorem afterFit_fixed (e : LambdaRankEstimator) (i : FitInput) :
    (e.afterFit i).config = e.config ∧ (e.afterFit i).extractor = e.extractor := by
  obtain ⟨result, hspec⟩ := e.afterFit_spec i
  generalize e.afterFit i = e' at hspec ⊢
  cases hspec <;> exact ⟨rfl, rfl⟩

/-- A call that installs nothing leaves the model, its rho and its version as they are. -/
theorem not_installs_spec {e : LambdaRankEstimator} {i : FitInput} (h : ¬ e.Installs i) :
    (e.afterFit i).model = e.model ∧ (e.afterFit i).lastRho = e.lastRho ∧
      (e.afterFit i).versionStr = e.versionStr := by
  unfold Installs at h
  obtain ⟨result, hspec⟩ := e.afterFit_spec i
  generalize e.afterFit i = e' at h hspec ⊢
  cases hspec with
  | unextracted hrows => exact ⟨rfl, rfl, rfl⟩
  | fullFailed hdue hrows hwhy => exact ⟨rfl, rfl, rfl⟩
  | fullInstalled hdue hrows hx hgroups hfit => exact absurd (Nat.succ_ne_self _) h
  | incrementalFailed hdue hmodel hrows hwhy => exact ⟨rfl, rfl, rfl⟩
  | rejected hdue hmodel hrows hx hfit hgate => exact ⟨rfl, rfl, rfl⟩
  | accepted hdue hmodel hrows hx hfit hgate => exact absurd (Nat.succ_ne_self _) h

/-- A call installs nothing exactly when it raises or returns a rejection. -/
theorem not_installs_iff (e : LambdaRankEstimator) (i : FitInput) :
    ¬ e.Installs i ↔ (∃ exc, (e.fit i.env i.records).2 = .error exc) ∨
      ∃ metrics, (e.fit i.env i.records).2 = .ok metrics ∧ metrics.rejected = true := by
  unfold Installs afterFit
  have hspec := e.fit_spec i.env i.records
  generalize (e.fit i.env i.records).1 = e', (e.fit i.env i.records).2 = result at hspec ⊢
  cases hspec with
  | unextracted hrows => simp
  | fullFailed hdue hrows hwhy => simp
  | fullInstalled hdue hrows hx hgroups hfit => simp [install, metricsOf]
  | incrementalFailed hdue hmodel hrows hwhy => simp
  | rejected hdue hmodel hrows hx hfit hgate => simp
  | accepted hdue hmodel hrows hx hfit hgate => simp [install, metricsOf]

/-! ## What a full fit is handed -/

/-- The model that LightGBM returns to a full fit with these records, if the fit gets that far. -/
def refitModel (e : LambdaRankEstimator) (i : FitInput) : Option (Booster × Prepared) :=
  match (prepareData e.extractor e.encoder i.records true).2 with
  | .error _ => none
  | .ok d =>
    if ((validGroupIds i.records).length : ℤ) < e.config.minGroups then none
    else match i.env.lightgbm (e.fullFitCall d) with
      | .error _ => none
      | .ok booster => some (booster, d)

theorem refitModel_eq_none {e : LambdaRankEstimator} {i : FitInput} {exc : PyException}
    {fdicts : List FeatureDict} (hrows : featureRows e.extractor i.records = .ok fdicts)
    (hwhy : (Encoder.fresh.extend fdicts).rows fdicts = .error exc ∨
      ∃ x, (Encoder.fresh.extend fdicts).rows fdicts = .ok x ∧
        ((((validGroupIds i.records).length : ℤ) < e.config.minGroups ∧
            exc = .insufficientGroups (validGroupIds i.records).length e.config.minGroups) ∨
          (e.config.minGroups ≤ (validGroupIds i.records).length ∧
            i.env.lightgbm (e.fullFitCall (assemble i.records x)) = .error exc))) :
    e.refitModel i = none := by
  unfold refitModel
  rw [prepareData_ok hrows]
  rcases hwhy with hx | ⟨x, hx, ⟨hgroups, -⟩ | ⟨hgroups, hfit⟩⟩
  · simp [hx, Except.map]
  · simp [hx, Except.map, hgroups]
  · simp [hx, Except.map, hfit]

theorem refitModel_eq_none_of_raises {e : LambdaRankEstimator} {i : FitInput}
    (h : ∀ call, ∃ exc, i.env.lightgbm call = .error exc) : e.refitModel i = none := by
  unfold refitModel
  split
  · rfl
  · next d _ =>
    obtain ⟨exc, hexc⟩ := h (e.fullFitCall d)
    split
    · rfl
    · rw [hexc]

theorem refitModel_eq_some {e : LambdaRankEstimator} {i : FitInput} {booster : Booster}
    {fdicts : List FeatureDict} {x : List Row}
    (hrows : featureRows e.extractor i.records = .ok fdicts)
    (hx : (Encoder.fresh.extend fdicts).rows fdicts = .ok x)
    (hgroups : e.config.minGroups ≤ (validGroupIds i.records).length)
    (hfit : i.env.lightgbm (e.fullFitCall (assemble i.records x)) = .ok booster) :
    e.refitModel i = some (booster, assemble i.records x) := by
  unfold refitModel
  rw [prepareData_ok hrows]
  simp [hx, Except.map, hgroups, hfit]

/-- A full fit with an extractor that reads the batch and enough groups installs what LightGBM
returns. -/
theorem afterFit_full {e : LambdaRankEstimator} {i : FitInput} {booster : Booster}
    (hreads : Prepares e.extractor i.records) (hdue : e.fullRefitDue = true)
    (hgroups : e.config.minGroups ≤ (validGroupIds i.records).length)
    (hfit : ∀ call, i.env.lightgbm call = .ok booster) :
    ∃ fdicts x, featureRows e.extractor i.records = .ok fdicts ∧
      (Encoder.fresh.extend fdicts).rows fdicts = .ok x ∧
      e.afterFit i =
        { e.install i.env booster (fullFitValidation i.env booster (assemble i.records x)).rho with
          encoder := Encoder.fresh.extend fdicts
          incrementalCount := 0 } := by
  obtain ⟨fdicts, hrows, hall⟩ := prepareData_extracts hreads
  obtain ⟨x, hx⟩ := hall (Encoder.fresh.extend fdicts)
  refine ⟨fdicts, x, hrows, hx, ?_⟩
  rw [afterFit, fit, if_pos hdue, fullFit_extracted hrows, hx]
  simp only [not_lt.mpr hgroups, if_false, hfit]
  rfl

end LambdaRankEstimator

/-! ## Concrete calls -/

def sampleRecord (taskType gid : String) (actualMs : ℚ) : TaskRecord where
  taskType := taskType
  payloadSize := 512
  actualMs := actualMs
  recordedAt := 0
  groupId := some gid

/-- A group of two records, in ascending duration. -/
def labelled (gid first second : String) : List TaskRecord :=
  [sampleRecord first gid 1, sampleRecord second gid 2]

/-- A booster that scores a row by its position. -/
def positionBooster (score : ℕ → ℚ) : Booster where
  predict rows := (List.range rows.length).map score
  predict_length rows := by simp

/-- `argsort` with equal values in the order of their positions. -/
def sortPositions (xs : List ℚ) : List ℕ :=
  (List.range xs.length).insertionSort fun i j => xs.getD i 0 ≤ xs.getD j 0

def plainExtractor : FeatureExtractor := defaultExtractor fun _ => ""

/-- The dictionary of a record without metadata, or of a candidate without features. -/
def plainFeatures (taskType : String) (payloadSize : ℤ) (t : Instant) : FeatureDict :=
  dictOf [
    ("task_type", orUnknown (fun _ => "") (some (.str taskType))),
    ("user_tier", .ofText unknownCategorical),
    ("payload_size", floatValue (payloadSize : ℚ)),
    ("prompt_length", floatValue (0 : ℚ)),
    ("retry_count", floatValue (0 : ℚ)),
    ("hour_of_day", floatValue (hourOf t : ℚ)),
    ("day_of_week", floatValue (weekdayOf t : ℚ)),
    ("queue_depth", floatValue (0 : ℚ)),
    ("queue_depth_same_type", floatValue (0 : ℚ)),
    ("worker_count_busy", floatValue (0 : ℚ)),
    ("worker_count_idle", floatValue (0 : ℚ)),
    ("recent_mean_ms_this_type", floatValue (0 : ℚ)),
    ("recent_p95_ms_this_type", floatValue (0 : ℚ)),
    ("recent_count_this_type", floatValue (0 : ℚ)),
    ("time_since_last_retrain_s", floatValue (0 : ℚ))]

/-- A record without metadata whose payload size is a double. -/
def Plain (record : TaskRecord) : Prop := record.metadata = ∅ ∧ record.payloadSize.natAbs < 2 ^ 53

theorem extract_plain {record : TaskRecord} (h : Plain record) :
    plainExtractor.extractFromRecord record =
      .ok (plainFeatures record.taskType record.payloadSize record.recordedAt) := by
  obtain ⟨hmetadata, hsize⟩ := h
  have hmissing : asFloat none = .ok (.finite 0) := rfl
  show defaultExtractFromRecord (fun _ => "") record = _
  rw [defaultExtractFromRecord, hmetadata]
  simp only [Finmap.lookup_empty, hmissing, floatOfInt_small hsize, floatOfInt_hourOf,
    floatOfInt_weekdayOf, Except.map]
  rfl

theorem extract_plain_candidate (taskId taskType : String) (now : Instant) :
    plainExtractor.extract ⟨taskId, taskType, ∅⟩ {} now = .ok (plainFeatures taskType 0 now) := by
  have hmissing : asFloat none = .ok (.finite 0) := rfl
  have hzero : floatOfInt 0 = .ok (.finite (0 : ℚ)) := by
    exact_mod_cast floatOfInt_small (n := 0) (by decide)
  show defaultExtract (fun _ => "") _ _ _ = _
  rw [defaultExtract]
  simp only [Finmap.lookup_empty, hmissing, hzero, floatOfInt_hourOf, floatOfInt_weekdayOf,
    Except.map]
  rw [plainFeatures, Int.cast_zero]
  rfl

theorem readable_plainFeatures (taskType : String) (payloadSize : ℤ) (t : Instant) :
    Readable (plainFeatures taskType payloadSize t) := by
  intro col hcol
  refine floatAt_dictOf ?_
  simp only [List.forall_mem_cons, List.not_mem_nil, false_implies, implies_true, and_true]
  refine ⟨?_, ?_, ?_, ?_, ?_, ?_, ?_, ?_, ?_, ?_, ?_, ?_, ?_, ?_, ?_⟩ <;> intro heq <;> subst heq
  · exact absurd hcol (show "task_type" ∉ numericCols by decide)
  · exact absurd hcol (show "user_tier" ∉ numericCols by decide)
  all_goals exact ⟨_, rfl⟩

section Plain
variable {records : List TaskRecord}

theorem plain_of_mem_rowRecords (h : ∀ r ∈ records, Plain r) :
    ∀ r ∈ (rowRecords records).flatten, Plain r := by
  intro r hr
  obtain ⟨r₀, hr₀, rfl⟩ := exists_of_mem_rowRecords hr
  exact h r₀ hr₀

theorem featureRows_plain (h : ∀ r ∈ records, Plain r) :
    featureRows plainExtractor records = .ok ((rowRecords records).flatten.map fun r =>
      plainFeatures r.taskType r.payloadSize r.recordedAt) := by
  refine mapM_eq_ok_iff.mpr ?_
  rw [List.forall₂_map_right_iff, List.forall₂_same]
  exact fun r hr => extract_plain (plain_of_mem_rowRecords h r hr)

theorem prepares_plain (h : ∀ r ∈ records, Plain r) : Prepares plainExtractor records :=
  fun r hr => ⟨_, extract_plain (plain_of_mem_rowRecords h r hr), readable_plainFeatures _ _ _⟩

end Plain

theorem plain_sampleRecord (taskType gid : String) (actualMs : ℚ) :
    Plain (sampleRecord taskType gid actualMs) :=
  ⟨rfl, show (512 : ℤ).natAbs < 2 ^ 53 by decide⟩

theorem plain_labelled (gid first second : String) : ∀ r ∈ labelled gid first second, Plain r := by
  simp [labelled, plain_sampleRecord]

/-- A call in which LightGBM returns `booster`. -/
def sampleInput (booster : Booster) (records : List TaskRecord) : FitInput where
  env := { lightgbm := fun _ => .ok booster, argsort := sortPositions, stamp := "20260401120000" }
  records := records

end Chronoq.Ranker
