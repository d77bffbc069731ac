import Chronoq.Ranker.PredictAtomicity

/-! # The interleavings that tear a prediction

For every way in which a refit changes the codes (`CodesChange`), one estimator, one refit and one call
for every number of candidates tell apart the interleavings that are not atomic. The old model gives a
row the score `0` if its task type has the code that the call reads too late, and `1` otherwise; the
refit installs a model that gives every row the score `-1`. A prediction with the old model then shows
which codes it has read, and its last version shows whether the new model was installed by then.

* A full refit starts the codes anew, so that `ocr` is the first type.
* An incremental one takes the code `2` for a type of its own before the call does.
* One without new types leaves the codes alone, and only the versions tell. -/

namespace Chronoq.Ranker
open Foundations

set_option autoImplicit false

/-! ## The estimator, the refit and the call -/

def tearingConfig (change : CodesChange) : RankerConfig :=
  { minGroups := 1
    fullRefitEveryNIncrementals := if change = .rebuilt then 0 else 10
    coldStartThreshold := 2 }

/-- A booster that scores a row by the code of its task type. -/
def codeBooster (code : ℕ) : Booster where
  predict := List.map fun row =>
    if row.getD numericCols.length (.finite 0) = .finite code then 0 else 1
  predict_length _ := List.length_map _

def flatBooster : Booster where
  predict := List.map fun _ => -1
  predict_length _ := List.length_map _

/-- The code of the call's type when the call reads it in time. -/
def earlyCode : CodesChange → ℕ
  | .extended => 2
  | _ => 1

def lateCode : CodesChange → ℕ
  | .extended => 3
  | _ => 0

/-- A fit that gives `resize` the code `0` and `ocr` the code `1`. -/
def firstFit (change : CodesChange) : FitInput :=
  sampleInput (codeBooster (lateCode change)) (labelled "batch_1" "resize" "ocr")

def servedEstimator (change : CodesChange) : LambdaRankEstimator :=
  (LambdaRankEstimator.new (tearingConfig change) plainExtractor).afterFit (firstFit change)

/-- The group `batch_0` sorts before `batch_1`. -/
def nextRecords : CodesChange → List TaskRecord
  | .rebuilt => labelled "batch_1" "resize" "ocr" ++ labelled "batch_0" "ocr" "resize"
  | .extended => labelled "batch_1" "scan" "ocr"
  | _ => labelled "batch_1" "resize" "ocr"

def nextFit (change : CodesChange) : FitInput := sampleInput flatBooster (nextRecords change)

def plainRows (records : List TaskRecord) : List FeatureDict :=
  (rowRecords records).flatten.map fun r => plainFeatures r.taskType r.payloadSize r.recordedAt

def trainedEncoder : Encoder := Encoder.fresh.extend (plainRows (labelled "batch_1" "resize" "ocr"))

/-- A type that the estimator has not seen, where the refit is to be the first to see another. -/
def callType : CodesChange → String
  | .extended => "mail"
  | _ => "ocr"

def callCandidate (change : CodesChange) : TaskCandidate :=
  { taskId := "a", taskType := callType change }

def callFeatures (change : CodesChange) : FeatureDict := plainFeatures (callType change) 0 0

def tornCall (change : CodesChange) (k : ℕ) : PredictCall :=
  .predictScores (List.replicate k (callCandidate change, 0))

def oldVersion : String := makeVersion (firstFit .rebuilt).env.stamp 1

def newVersion : String := makeVersion (nextFit .rebuilt).env.stamp 2

theorem newVersion_ne : newVersion ≠ oldVersion := by decide +kernel

variable {change : CodesChange} {k : ℕ}

theorem plain_nextRecords (change : CodesChange) : ∀ r ∈ nextRecords change, Plain r := by
  cases change with
  | rebuilt =>
    intro r hr
    obtain hr | hr := List.mem_append.mp hr
    · exact plain_labelled _ _ _ r hr
    · exact plain_labelled _ _ _ r hr
  | _ => exact plain_labelled _ _ _

structure Served (change : CodesChange) (e : LambdaRankEstimator) : Prop where
  config : e.config = tearingConfig change
  extractor : e.extractor = plainExtractor
  model : e.model = some (codeBooster (lateCode change))
  version : e.versionStr = oldVersion
  counter : e.versionCounter = 1
  count : e.incrementalCount = 0
  encoder : e.encoder = trainedEncoder

theorem served (change : CodesChange) : Served change (servedEstimator change) := by
  have hplain := plain_labelled "batch_1" "resize" "ocr"
  have hgroups : (1 : ℤ) ≤ (validGroupIds (labelled "batch_1" "resize" "ocr")).length := by decide
  obtain ⟨fdicts, x, hrows, -, hafter⟩ := LambdaRankEstimator.afterFit_full
    (e := .new (tearingConfig change) plainExtractor) (i := firstFit change) (prepares_plain hplain)
    rfl hgroups fun _ => rfl
  cases hrows.symm.trans (featureRows_plain hplain)
  rw [servedEstimator, hafter]
  exact ⟨rfl, rfl, rfl, rfl, rfl, rfl, rfl⟩

theorem nextFit_rows (change : CodesChange) :
    featureRows plainExtractor (nextFit change).records = .ok (plainRows (nextRecords change)) :=
  featureRows_plain (plain_nextRecords change)

theorem nextRows_ok (change : CodesChange) (encoder : Encoder) :
    ∃ x, encoder.rows (plainRows (nextRecords change)) = .ok x := by
  obtain ⟨fdicts, hrows, hall⟩ := prepareData_extracts (prepares_plain (plain_nextRecords change))
  cases hrows.symm.trans (nextFit_rows change)
  exact hall encoder

theorem tornCall_features (change : CodesChange) (k : ℕ) :
    (tornCall change k).features plainExtractor = .ok (List.replicate k (callFeatures change)) := by
  refine mapM_eq_ok_iff.mpr ?_
  induction k with
  | zero => exact .nil
  | succ k ih => exact .cons (extract_plain_candidate "a" (callType change) 0) ih

theorem served_fullRefitDue (change : CodesChange) :
    (servedEstimator change).fullRefitDue = decide (change = .rebuilt) := by
  obtain ⟨hconfig, -, hmodel, -, -, hcount, -⟩ := served change
  rw [LambdaRankEstimator.fullRefitDue, hconfig, hmodel, hcount]
  cases change <;> rfl

/-! ## Codes -/

theorem textAt_callFeatures (change : CodesChange) :
    textAt (callFeatures change) "task_type" = callType change := by
  cases change <;> decide +kernel

theorem trainedEncoder_ocr : trainedEncoder.codeOf "task_type" "ocr" = some 1 := by decide +kernel

theorem trainedEncoder_mail :
    (trainedEncoder.encodeDict (callFeatures .extended)).codeOf "task_type" "mail" = some 2 := by
  decide +kernel

theorem scanned_mail : ((trainedEncoder.extend (plainRows (nextRecords .extended))).encodeDict
    (callFeatures .extended)).codeOf "task_type" "mail" = some 3 := by
  decide +kernel

theorem codeOf_early (change : CodesChange) (hk : k ≠ 0) :
    (trainedEncoder.extend (List.replicate k (callFeatures change))).codeOf "task_type"
      (callType change) = some (earlyCode change) := by
  cases change with
  | extended =>
    obtain ⟨k, rfl⟩ := Nat.exists_eq_succ_of_ne_zero hk
    rw [List.replicate_succ, Encoder.extend_cons]
    exact Encoder.codeOf_extend_of_some trainedEncoder_mail _
  | _ => exact Encoder.codeOf_extend_of_some trainedEncoder_ocr _

/-- The next `ocr` gets the code `0`, or has it. -/
def OcrFirst (encoder : Encoder) : Prop :=
  encoder.codeOf "task_type" "ocr" = some 0 ∨ (encoder.lookup "task_type").getD ∅ = ∅

theorem codeOf_extend_ocr {encoder : Encoder} (h : OcrFirst encoder) {fdict : FeatureDict}
    (htext : textAt fdict "task_type" = "ocr") (fdicts : List FeatureDict) :
    (encoder.extend (fdict :: fdicts)).codeOf "task_type" "ocr" = some 0 := by
  have hfirst : (encoder.encodeDict fdict).codeOf "task_type" "ocr" = some 0 := by
    obtain h | h := h
    · exact Encoder.codeOf_encodeCols_of_some h fdict catCols
    · refine Encoder.codeOf_encodeValue_of_some ?_ "user_tier" _
      change (encoder.encodeValue "task_type" (textAt fdict "task_type")).codeOf _ _ = some 0
      rw [htext]
      simp only [Encoder.codeOf, Encoder.encodeValue, Finmap.lookup_insert, h]
      rfl
  exact Encoder.codeOf_extend_of_some hfirst fdicts

theorem OcrFirst.extend {encoder : Encoder} (h : OcrFirst encoder) (k : ℕ) :
    OcrFirst (encoder.extend (List.replicate k (callFeatures .rebuilt))) := by
  cases k with
  | zero => exact h
  | succ k => exact .inl (codeOf_extend_ocr h (textAt_callFeatures .rebuilt) _)

/-- The refit's first row has the type `ocr`. -/
theorem OcrFirst.extend_nextRows {encoder : Encoder} (h : OcrFirst encoder) :
    OcrFirst (encoder.extend (plainRows (nextRecords .rebuilt))) := by
  obtain ⟨fdict, fdicts, hrows, htext⟩ : ∃ fdict fdicts,
      plainRows (nextRecords .rebuilt) = fdict :: fdicts ∧ textAt fdict "task_type" = "ocr" :=
    ⟨_, _, rfl, by decide +kernel⟩
  rw [hrows]
  exact .inl (codeOf_extend_ocr h htext fdicts)

theorem OcrFirst.cell {encoder : Encoder} (h : OcrFirst encoder) :
    encoder.cell "task_type" "ocr" = .finite 0 := by
  obtain h | h := h
  · rw [Encoder.cell, h]
    rfl
  · rw [Encoder.cell, Encoder.codeOf]
    cases hcodes : encoder.lookup "task_type" with
    | none => rfl
    | some codes =>
      rw [hcodes, Option.getD_some] at h
      rw [Option.bind_some, h]
      rfl

theorem rows_call (encoder : Encoder) (change : CodesChange) (k : ℕ) :
    ∃ row : Row, encoder.rows (List.replicate k (callFeatures change)) = .ok (List.replicate k row) ∧
      row.getD numericCols.length (.finite 0) =
        toFloat32 (encoder.cell "task_type" (callType change)) := by
  obtain ⟨row, hrow⟩ : ∃ row, encoder.row (callFeatures change) = .ok row :=
    Encoder.exists_row_ok_iff.mpr (readable_plainFeatures (callType change) 0 0)
  refine ⟨row, mapM_eq_ok_iff.mpr ?_, ?_⟩
  · induction k with
    | zero => exact .nil
    | succ k ih => exact .cons hrow ih
  · have hcell : row[numericCols.length]? = _ := Encoder.row_getElem_cat hrow (j := 0) (by decide)
    rw [List.getD_eq_getElem?_getD, hcell, Option.getD_some]
    exact congrArg (fun type => toFloat32 (encoder.cell "task_type" type)) (textAt_callFeatures change)

theorem codeBooster_replicate (code k : ℕ) (row : Row) :
    ∃ x : ℚ, (codeBooster code).predict (List.replicate k row) = List.replicate k x ∧
      (x = 0 ∨ x = 1) ∧ (row.getD numericCols.length (.finite 0) = .finite code ↔ x = 0) := by
  refine ⟨_, List.map_replicate, ?_⟩
  by_cases h : row.getD numericCols.length (.finite 0) = .finite code
  · rw [if_pos h]
    exact ⟨.inl rfl, iff_of_true h rfl⟩
  · rw [if_neg h]
    exact ⟨.inr rfl, iff_of_false h one_ne_zero⟩

/-! ## The refit beside any prediction -/

/-- What holds of the refit and of the instance, codes apart, after `m` of its steps. -/
structure NextFitAt (change : CodesChange) (m : ℕ) (s : Shared) : Prop where
  config : s.est.config = tearingConfig change
  extractor : s.est.extractor = plainExtractor
  ok : s.retrain.raised = none
  rejected : s.retrain.rejected = false
  before : m ≤ 8 → s.est.model = some (codeBooster (lateCode change)) ∧ s.est.versionCounter = 1 ∧
    s.est.incrementalCount = 0
  unread : m ≤ 2 → s.retrain.prevModel = none
  full : 2 ≤ m → s.retrain.full = decide (change = .rebuilt)
  snapshot : 3 ≤ m → s.retrain.fdicts = plainRows (nextRecords change) ∧ s.retrain.prevModel =
    if change = .rebuilt then none else some (codeBooster (lateCode change))
  rows : 6 ≤ m → s.retrain.rows.length = (plainRows (nextRecords change)).length
  trained : 7 ≤ m → s.retrain.model = some flatBooster
  installed : 9 ≤ m → s.est.model = some flatBooster ∧ s.est.versionStr = newVersion ∧
    s.est.versionCounter = 2

theorem NextFitAt.withEncoder {m : ℕ} {s s' : Shared} (h : NextFitAt change m s) {encoder : Encoder}
    (hest : s'.est = { s.est with encoder := encoder }) (hretrain : s'.retrain = s.retrain) :
    NextFitAt change m s' := by
  obtain ⟨est, retrain, predict⟩ := s'
  subst hest hretrain
  exact ⟨h.config, h.extractor, h.ok, h.rejected, h.before, h.unread, h.full, h.snapshot, h.rows,
    h.trained, h.installed⟩

theorem NextFitAt.afterPredict {m : ℕ} {s : Shared} (h : NextFitAt change m s)
    (features : List FeatureDict) (n : ℕ) : NextFitAt change m (predictStep features n s) := by
  obtain ⟨encoder, hest, -⟩ := predictStep_est features n s
  exact h.withEncoder hest (predictStep_retrain n s)

/-- Without two rows to validate on, no model is rejected. -/
theorem evaluate_accepts {t : RetrainThread} {i : FitInput} (hrejected : t.rejected = false)
    (hval : (assemble i.records t.rows).xVal.length < 2) :
    ∃ rho, t.evaluate i = { t with rho := rho } := by
  have hnot : ∀ p : Prop, ¬ (2 ≤ (assemble i.records t.rows).xVal.length ∧ p) :=
    fun p h => absurd h.1 (not_le.mpr hval)
  unfold RetrainThread.evaluate
  split
  · exact ⟨_, rfl⟩
  · exact ⟨_, rfl⟩
  · next booster _ _ =>
    refine ⟨(incrementalFitValidation i.env booster (assemble i.records t.rows)).rho, ?_⟩
    simp only [decide_eq_false (hnot _), ← hrejected]

theorem NextFitAt.xVal {m : ℕ} {s : Shared} (h : NextFitAt change m s) (hm : 6 ≤ m) :
    (assemble (nextFit change).records s.retrain.rows).xVal.length < 2 := by
  have hsplit : (plainRows (nextRecords change)).length = valStart (nextRecords change) := by
    cases change <;> decide
  rw [assemble_xVal_length, h.rows hm, hsplit]
  have hsame : (nextFit change).records = nextRecords change := rfl
  rw [hsame]
  omega

/-- Most steps make nothing true that was not. -/
theorem NextFitAt.succ {m : ℕ} {s : Shared} (h : NextFitAt change m s) (hm : m ∉ [1, 2, 5, 6, 8]) :
    NextFitAt change (m + 1) s := by
  simp only [List.mem_cons, List.not_mem_nil, or_false, not_or] at hm
  exact ⟨h.config, h.extractor, h.ok, h.rejected, fun _ => h.before (by omega),
    fun _ => h.unread (by omega), fun _ => h.full (by omega), fun _ => h.snapshot (by omega),
    fun _ => h.rows (by omega), fun _ => h.trained (by omega), fun _ => h.installed (by omega)⟩

theorem NextFitAt.afterRetrain {m : ℕ} {s : Shared} (h : NextFitAt change m s) (hm : m < 11) :
    NextFitAt change (m + 1) (retrainStep (nextFit change) m s) := by
  interval_cases m
  · rw [retrainStep_of_ok (a := .readEstimator) rfl h.ok]
    obtain ⟨config, extractor, ok, rejected, before, unread, full, snapshot, rows, trained,
      installed⟩ := h.succ (by decide)
    exact ⟨config, extractor, ok, rejected, before, unread, full, snapshot, rows, trained, installed⟩
  · rw [retrainStep_of_ok (a := .decide) rfl h.ok]
    refine ⟨h.config, h.extractor, h.ok, h.rejected, fun _ => h.before (by omega),
      fun _ => h.unread (by omega), fun _ => ?_, by omega, by omega, by omega, by omega⟩
    obtain ⟨hmodel, -, hcount⟩ := h.before (by omega)
    simp only [RetrainThread.effect]
    rw [LambdaRankEstimator.fullRefitDue, h.config, hmodel, hcount]
    cases change <;> rfl
  · rw [retrainStep_of_ok (a := .snapshot) rfl h.ok]
    have hrows : featureRows s.est.extractor (nextFit change).records =
        .ok (plainRows (nextRecords change)) := by
      rw [h.extractor]
      exact nextFit_rows change
    simp only [RetrainThread.effect, snapshot_ok hrows]
    refine ⟨h.config, h.extractor, h.ok, h.rejected, fun _ => h.before (by omega), by omega,
      fun _ => h.full (by omega), fun _ => ⟨rfl, ?_⟩, by omega, by omega, by omega⟩
    simp only [h.full (le_refl 2), h.unread (le_refl 2), (h.before (by omega)).1]
    cases change <;> rfl
  · obtain ⟨encoder, hest⟩ := retrainStep_est (i := nextFit change) (m := 3) (by omega) s
    refine (h.succ (by decide)).withEncoder hest ?_
    rw [retrainStep_of_ok (a := .rebuildEncoder) rfl h.ok]
    rfl
  · obtain ⟨encoder, hest⟩ := retrainStep_est (i := nextFit change) (m := 4) (by omega) s
    refine (h.succ (by decide)).withEncoder hest ?_
    rw [retrainStep_of_ok (a := .extendEncoder) rfl h.ok]
    rfl
  · rw [retrainStep_of_ok (a := .encodeRows) rfl h.ok]
    obtain ⟨x, hx⟩ := nextRows_ok change s.est.encoder
    have hgroups : s.est.config.minGroups ≤ (validGroupIds (nextFit change).records).length := by
      rw [h.config]
      cases change <;> decide
    simp only [RetrainThread.effect, encodeRows_ok (i := nextFit change) (t := s.retrain)
      (by rw [(h.snapshot (by omega)).1]; exact hx) fun _ => hgroups]
    exact ⟨h.config, h.extractor, h.ok, h.rejected, fun _ => h.before (by omega), by omega,
      fun _ => h.full (by omega), fun _ => h.snapshot (by omega), fun _ => length_of_mapM_ok hx,
      by omega, by omega⟩
  · rw [retrainStep_of_ok (a := .train) rfl h.ok]
    exact ⟨h.config, h.extractor, h.ok, h.rejected, fun _ => h.before (by omega), by omega,
      fun _ => h.full (by omega), fun _ => h.snapshot (by omega), fun _ => h.rows (by omega),
      fun _ => rfl, by omega⟩
  · rw [retrainStep_of_ok (a := .evaluate) rfl h.ok]
    obtain ⟨rho, haccepts⟩ := evaluate_accepts h.rejected (h.xVal (by omega))
    simp only [RetrainThread.effect, haccepts]
    obtain ⟨config, extractor, ok, rejected, before, unread, full, snapshot, rows, trained,
      installed⟩ := h.succ (by decide)
    exact ⟨config, extractor, ok, rejected, before, unread, full, snapshot, rows, trained, installed⟩
  · rw [retrainStep_of_ok (a := .installModel) rfl h.ok]
    have hinstall : s.retrain.install (nextFit change) s.est =
        s.est.install (nextFit change).env flatBooster s.retrain.rho := by
      rw [RetrainThread.install, h.trained (by omega), h.rejected]
      rfl
    simp only [RetrainThread.effect, hinstall]
    refine ⟨h.config, h.extractor, h.ok, h.rejected, by omega, by omega, fun _ => h.full (by omega),
      fun _ => h.snapshot (by omega), fun _ => h.rows (by omega), fun _ => h.trained (by omega),
      fun _ => ?_⟩
    rw [LambdaRankEstimator.install, (h.before (by omega)).2.1]
    exact ⟨rfl, rfl, rfl⟩
  · rw [retrainStep_of_ok (a := .countFit) rfl h.ok]
    obtain ⟨config, extractor, ok, rejected, -, -, full, snapshot, rows, trained, installed⟩ :=
      h.succ (by decide)
    exact ⟨config, extractor, ok, rejected, by omega, by omega, full, snapshot, rows, trained,
      installed⟩
  · rw [retrainStep_of_ok (a := .swapEstimator) rfl h.ok]
    obtain ⟨config, extractor, ok, rejected, -, -, full, snapshot, rows, trained, installed⟩ :=
      h.succ (by decide)
    exact ⟨config, extractor, ok, rejected, by omega, by omega, full, snapshot, rows, trained,
      installed⟩

theorem nextFitAt_start (change : CodesChange) (p : PredictThread) :
    NextFitAt change 0 ⟨servedEstimator change, {}, p⟩ := by
  obtain ⟨hconfig, hextractor, hmodel, -, hcounter, hcount, -⟩ := served change
  exact ⟨hconfig, hextractor, rfl, rfl, fun _ => ⟨hmodel, hcounter, hcount⟩, fun _ => rfl, by omega,
    by omega, by omega, by omega, by omega⟩

/-- The refit installs the flat model under the next version. -/
theorem afterFit_nextFit (change : CodesChange) :
    ((servedEstimator change).afterFit (nextFit change)).model = some flatBooster ∧
      ((servedEstimator change).afterFit (nextFit change)).versionStr = newVersion ∧
      (servedEstimator change).Installs (nextFit change) := by
  have hrun : ∀ m ≤ 11, NextFitAt change m
      (runAlone (retrainStep (nextFit change)) m ⟨servedEstimator change, {}, {}⟩) := by
    intro m hm
    induction m with
    | zero => exact nextFitAt_start change {}
    | succ m ih => exact (ih (by omega)).afterRetrain (by omega)
  have hend := (hrun 11 (le_refl 11)).installed (by omega)
  rw [retrain_alone] at hend
  refine ⟨hend.1, hend.2.1, ?_⟩
  rw [LambdaRankEstimator.Installs, hend.2.2, (served change).counter]
  decide

/-! ## The call beside the refit -/

/-- What holds of the codes after `m` steps of the refit and `n` of a call that reads them `late`. -/
def LateCodes (late : Prop) (m n : ℕ) (encoder : Encoder) : CodesChange → Prop
  | .rebuilt => 4 ≤ m → OcrFirst encoder
  | .extended =>
    (n ≤ 2 → encoder =
      if m ≤ 4 then trainedEncoder else trainedEncoder.extend (plainRows (nextRecords .extended))) ∧
    (3 ≤ n → late → encoder.codeOf "task_type" "mail" = some 3)
  | _ => True

/-- What holds of the call after `n` of its steps, when it has read the old model. `late` and
`lateVersion` say that it reads the codes too late and its last version after the installation. -/
structure TornCallAt (change : CodesChange) (k : ℕ) (late lateVersion : Prop) (n : ℕ) (s : Shared) :
    Prop where
  ok : s.predict.raised = none
  model : 2 ≤ n → s.predict.model = some (codeBooster (lateCode change))
  rows : 4 ≤ n → ∃ row : Row, s.predict.rows = List.replicate k row ∧
    (late → row.getD numericCols.length (.finite 0) = .finite (lateCode change))
  results : 5 ≤ n → ∃ x : ℚ, s.predict.results = List.replicate k (-x, 8 / 10) ∧
    (x = 0 ∨ x = 1) ∧ (late → x = 0)
  versions : s.predict.versions.length = n - 5
  lastVersion : lateVersion → 5 < n → n = 5 + k →
    s.predict.versions.getD (k - 1) "" = newVersion

theorem LateCodes.afterRetrain {late : Prop} {m n : ℕ} {s : Shared} (hfit : NextFitAt change m s)
    (h : LateCodes late m n s.est.encoder change) :
    LateCodes late (m + 1) n (retrainStep (nextFit change) m s).est.encoder change := by
  by_cases hthree : m = 3
  · subst hthree
    rw [retrainStep_of_ok (a := .rebuildEncoder) rfl hfit.ok]
    simp only [RetrainThread.effect, (hfit.snapshot (le_refl 3)).2]
    cases change with
    | rebuilt => exact fun _ => .inr rfl
    | extended => exact ⟨fun hn => h.1 hn, h.2⟩
    | _ => trivial
  · by_cases hfour : m = 4
    · subst hfour
      rw [retrainStep_of_ok (a := .extendEncoder) rfl hfit.ok]
      simp only [RetrainThread.effect, (hfit.snapshot (by omega)).1]
      cases change with
      | rebuilt => exact fun _ => (h (le_refl 4)).extend_nextRows
      | extended =>
        refine ⟨fun hn => ?_, fun hn hlate => Encoder.codeOf_extend_of_some (h.2 hn hlate) _⟩
        rw [h.1 hn]
        rfl
      | _ => trivial
    · rw [retrainStep_encoder hthree hfour]
      cases change with
      | rebuilt => exact fun hm => h (by omega)
      | extended =>
        refine ⟨fun hn => ?_, h.2⟩
        rw [h.1 hn]
        by_cases hm : m ≤ 4
        · rw [if_pos hm, if_pos (by omega)]
        · rw [if_neg hm, if_neg (by omega)]
      | _ => trivial

theorem LateCodes.afterPredict {late lateVersion : Prop} {m n : ℕ} {s : Shared} (hk : k ≠ 0)
    (hcall : TornCallAt change k late lateVersion n s)
    (hlate : late → change = .extended → n = 2 → 4 < m)
    (h : LateCodes late m n s.est.encoder change) :
    LateCodes late m (n + 1)
      (predictStep (List.replicate k (callFeatures change)) n s).est.encoder change := by
  obtain ⟨encoder, hest, hencoder⟩ := predictStep_est (List.replicate k (callFeatures change)) n s
  cases change with
  | rebuilt =>
    intro hm
    rw [hest]
    obtain rfl | rfl := hencoder
    · exact h hm
    · exact (h hm).extend k
  | extended =>
    refine ⟨fun hn => ?_, fun hn hislate => ?_⟩
    · rw [predictStep_est_early (by omega)]
      exact h.1 (by omega)
    · by_cases htwo : n = 2
      · subst htwo
        have hm := hlate hislate rfl rfl
        obtain ⟨k, rfl⟩ := Nat.exists_eq_succ_of_ne_zero hk
        have hsome : s.predict.model.isSome := by rw [hcall.model (le_refl 2)]; rfl
        rw [predictStep_two hcall.ok hsome, h.1 (le_refl 2), if_neg (by omega), List.replicate_succ,
          Encoder.extend_cons]
        exact Encoder.codeOf_extend_of_some scanned_mail _
      · have hcode := h.2 (by omega) hislate
        rw [hest]
        obtain rfl | rfl := hencoder
        · exact hcode
        · exact Encoder.codeOf_extend_of_some hcode _
  | _ => trivial

/-- A call that reads the codes too late finds the late code. -/
theorem LateCodes.cell {late : Prop} {m : ℕ} {encoder : Encoder}
    (h : LateCodes late m 3 encoder change) (hlate : late)
    (hchange : change = .extended ∨ change = .rebuilt ∧ 4 ≤ m) :
    toFloat32 (encoder.cell "task_type" (callType change)) = .finite (lateCode change) := by
  obtain rfl | ⟨rfl, hm⟩ := hchange
  · have hcell : encoder.cell "task_type" "mail" = .finite (3 : ℕ) := by
      rw [Encoder.cell, h.2 (le_refl 3) hlate]
      rfl
    rw [callType, hcell]
    exact toFloat32_natCast (by decide)
  · have hcell : encoder.cell "task_type" (callType .rebuilt) = .finite (0 : ℕ) := (h hm).cell
    rw [hcell]
    exact toFloat32_natCast (by decide)

theorem newVersion_version {e : LambdaRankEstimator} (h : e.versionStr = newVersion) :
    e.version = newVersion := by
  rw [LambdaRankEstimator.version, h]
  exact if_neg (by decide +kernel)

theorem TornCallAt.afterPredict {m n : ℕ} {late lateVersion : Prop} {s : Shared}
    (h : TornCallAt change k late lateVersion n s) (hfit : NextFitAt change m s) (hn : n < 5 + k)
    (hmodel : n = 1 → m ≤ 8)
    (hcodes : late → n = 3 →
      toFloat32 (s.est.encoder.cell "task_type" (callType change)) = .finite (lateCode change))
    (hversion : lateVersion → n = 4 + k → 9 ≤ m) :
    TornCallAt change k late lateVersion (n + 1)
      (predictStep (List.replicate k (callFeatures change)) n s) := by
  obtain ⟨ok, model, rows, results, versions, lastVersion⟩ := h
  rw [predictStep_of_ok ok]
  match n with
  | 0 => exact ⟨ok, by omega, by omega, by omega, versions, by omega⟩
  | 1 => exact ⟨ok, fun _ => (hfit.before (hmodel rfl)).1, by omega, by omega, versions, by omega⟩
  | 2 => exact ⟨ok, fun _ => model (by omega), by omega, by omega, versions, by omega⟩
  | 3 =>
    obtain ⟨row, hrows, hcell⟩ := rows_call s.est.encoder change k
    simp only [predictAction, PredictThread.effect, model (by omega), Option.isSome_some, if_true,
      PredictThread.encodeRows, hrows]
    exact ⟨ok, fun _ => rfl, fun _ => ⟨row, rfl, fun hlate => hcell.trans (hcodes hlate rfl)⟩,
      by omega, versions, by omega⟩
  | 4 =>
    obtain ⟨row, hrows, hzero⟩ := rows (by omega)
    obtain ⟨x, hx, hvalues, hcode⟩ := codeBooster_replicate (lateCode change) k row
    refine ⟨ok, fun _ => model (by omega), fun _ => ⟨row, hrows, hzero⟩, fun _ => ⟨x, ?_, hvalues,
      fun hlate => hcode.mp (hzero hlate)⟩, versions, by omega⟩
    simp only [predictAction, PredictThread.effect, PredictThread.score, model (by omega), hrows, hx,
      List.map_replicate]
  | n + 5 =>
    have hlen : (s.predict.versions ++ [s.est.version]).length = n + 5 + 1 - 5 := by
      rw [List.length_append, List.length_singleton, versions]
      omega
    refine ⟨ok, fun _ => model (by omega), fun _ => rows (by omega), fun _ => results (by omega), hlen,
      fun hlate _ hlast => ?_⟩
    have hk : k - 1 = s.predict.versions.length := by
      rw [versions]
      omega
    have hinstalled := hversion hlate (by omega)
    simp only [predictAction, PredictThread.effect]
    rw [hk, List.getD_append_right _ _ _ _ (le_refl _), Nat.sub_self]
    exact newVersion_version (hfit.installed hinstalled).2.1

theorem TornCallAt.afterRetrain {m n : ℕ} {late lateVersion : Prop} {s : Shared}
    {i : FitInput} (h : TornCallAt change k late lateVersion n s) :
    TornCallAt change k late lateVersion n (retrainStep i m s) := by
  have hpredict := retrainStep_predict (i := i) m s
  obtain ⟨ok, model, rows, results, versions, lastVersion⟩ := h
  rw [← hpredict] at ok model rows results versions lastVersion
  exact ⟨ok, model, rows, results, versions, lastVersion⟩

/-! ## What the call returns before and after the refit, and beside it -/

def callRanking (change : CodesChange) (k : ℕ) (score : ℚ) (version : ℕ → String) :
    Except PyException Response :=
  .ok (.ranking (scoredTasks (List.replicate k (callCandidate change)) (List.replicate k score)
    version .lambdarank))

theorem tornCall_respond (change : CodesChange) (k : ℕ) (score confidence : ℚ)
    (version : ℕ → String) :
    (.ok ((tornCall change k).respond (List.replicate k (score, confidence)) version .lambdarank) :
      Except PyException Response) = callRanking change k score version := by
  simp only [tornCall, PredictCall.respond, List.map_replicate]
  rfl

theorem callRanking_score (hk : k ≠ 0) {score score' : ℚ} {version version' : ℕ → String}
    (h : callRanking change k score version = callRanking change k score' version') :
    score = score' := by
  have htasks := Response.ranking.inj (Except.ok.inj h)
  have hperm := perm_of_scoredTasks_eq (by simp) (by simp) htasks
  have hmem := hperm.mem_iff.mp (List.mem_replicate.mpr ⟨hk, rfl⟩)
  exact (List.mem_replicate.mp hmem).2

theorem callRanking_version (hk : k ≠ 0) {score score' : ℚ} {version version' : ℕ → String}
    (h : callRanking change k score version = callRanking change k score' version') :
    version (k - 1) = version' (k - 1) := by
  have htasks := Response.ranking.inj (Except.ok.inj h)
  refine version_of_scoredTasks_eq (by simp) (by simp) htasks ?_
  rw [List.length_replicate]
  omega

theorem earlyCode_ne (change : CodesChange) :
    toFloat32 (.finite (earlyCode change)) ≠ .finite (lateCode change) := by
  rw [toFloat32_natCast (by cases change <;> decide)]
  cases change <;> decide +kernel

theorem run_before (change : CodesChange) (hk : k ≠ 0) :
    ((tornCall change k).run plainExtractor (.lambdarank (servedEstimator change))).2 =
      callRanking change k (-1) fun _ => oldVersion := by
  obtain ⟨-, hextractor, hmodel, hversion, -, -, hencoder⟩ := served change
  have hfeatures := tornCall_features change k
  obtain ⟨row, hrows, hcell⟩ :=
    rows_call ((servedEstimator change).encoder.extend (List.replicate k (callFeatures change)))
      change k
  obtain ⟨x, hscores, hvalues, hcode⟩ := codeBooster_replicate (lateCode change) k row
  obtain rfl : x = 1 := by
    refine hvalues.resolve_left (mt hcode.mpr ?_)
    rw [hcell, Encoder.cell, hencoder, codeOf_early change hk]
    exact earlyCode_ne change
  have hcurrent : (servedEstimator change).version = oldVersion := by
    rw [LambdaRankEstimator.version, hversion]
    exact if_neg (by decide +kernel)
  rw [← hextractor] at hfeatures ⊢
  rw [PredictCall.run_lambdarank hfeatures]
  simp only [hmodel, hrows, hscores, hcurrent, List.map_replicate]
  exact tornCall_respond change k (-1) _ _

theorem run_after (change : CodesChange) (k : ℕ) :
    ((tornCall change k).run plainExtractor
      (.lambdarank ((servedEstimator change).afterFit (nextFit change)))).2 =
      callRanking change k 1 fun _ => newVersion := by
  obtain ⟨hmodel, hversion, -⟩ := afterFit_nextFit change
  have hextractor :=
    ((servedEstimator change).afterFit_fixed (nextFit change)).2.trans (served change).extractor
  have hfeatures := tornCall_features change k
  obtain ⟨row, hrows, -⟩ :=
    rows_call (((servedEstimator change).afterFit (nextFit change)).encoder.extend
      (List.replicate k (callFeatures change))) change k
  have hscores : flatBooster.predict (List.replicate k row) = List.replicate k (-1) :=
    List.map_replicate
  rw [← hextractor] at hfeatures ⊢
  rw [PredictCall.run_lambdarank hfeatures]
  simp only [hmodel, hrows, hscores, newVersion_version hversion, List.map_replicate, neg_neg]
  exact tornCall_respond change k 1 _ _

/-- A call that reads the old model: its score tells whether it reads the codes too late, and its last
version whether it reads that after the installation. -/
theorem result_torn (change : CodesChange) (hk : k ≠ 0) (w : PredictInterleaving k)
    (hmodel : w.retrainedBefore 1 ≤ 8) :
    ∃ (x : ℚ) (version : ℕ → String),
      w.result (servedEstimator change) (nextFit change) (tornCall change k) =
        callRanking change k (-x) version ∧ (x = 0 ∨ x = 1) ∧
      (¬ w.CodesInTime change → x = 0) ∧
      (8 < w.retrainedBefore (4 + k) → version (k - 1) = newVersion) := by
  obtain ⟨-, hextractor, -, -, -, -, hencoder⟩ := served change
  have hstart : (tornCall change k).start (servedEstimator change) =
      ⟨servedEstimator change, {}, {}⟩ := by
    rw [PredictCall.start, hextractor, tornCall_features]
  have hdicts : (tornCall change k).featureDicts (servedEstimator change).extractor =
      List.replicate k (callFeatures change) := by
    rw [PredictCall.featureDicts, hextractor, tornCall_features]
  have hcodes : LateCodes (¬ w.CodesInTime change) 0 0 (servedEstimator change).encoder change := by
    cases change with
    | rebuilt => exact fun h => absurd h (by omega)
    | extended => exact ⟨fun _ => hencoder, fun h => absurd h (by omega)⟩
    | _ => trivial
  have hinv := exec_invariant (w := w.steps) (s := (tornCall change k).start (servedEstimator change))
    (P := fun m n s => NextFitAt change m s ∧
      TornCallAt change k (¬ w.CodesInTime change) (8 < w.retrainedBefore (4 + k)) n s ∧
      LateCodes (¬ w.CodesInTime change) m n s.est.encoder change)
    (by
      rw [hstart]
      exact ⟨nextFitAt_start change {}, ⟨rfl, by omega, by omega, by omega, rfl, by omega⟩, hcodes⟩)
    (fun m hm s h => by
      rw [w.retrain_steps] at hm
      exact ⟨h.1.afterRetrain hm, h.2.1.afterRetrain, h.2.2.afterRetrain h.1⟩)
    (fun n hn s h => by
      rw [w.predict_steps] at hn
      refine ⟨h.1.afterPredict _ n, h.2.1.afterPredict h.1 hn ?_ ?_ ?_,
        h.2.2.afterPredict hk h.2.1 ?_⟩
      · rintro rfl
        exact hmodel
      · rintro hlate rfl
        refine h.2.2.cell hlate ?_
        cases change with
        | untouched => exact absurd trivial hlate
        | kept => exact absurd trivial hlate
        | extended => exact .inl rfl
        | rebuilt => exact .inr ⟨rfl, not_le.mp hlate⟩
      · rintro hlate rfl
        exact hlate
      · rintro hlate rfl rfl
        exact not_le.mp hlate)
  rw [w.retrain_steps, w.predict_steps] at hinv
  obtain ⟨-, hcall, -⟩ := hinv
  obtain ⟨x, hresults, hvalues, hlate⟩ := hcall.results (by omega)
  refine ⟨x, fun rank => ((execFrom (retrainStep (nextFit change))
    (predictStep (List.replicate k (callFeatures change))) 0 0 w.steps
    ((tornCall change k).start (servedEstimator change))).predict).versions.getD rank "", ?_, hvalues,
    hlate, fun hversion => hcall.lastVersion hversion (by omega) rfl⟩
  rw [PredictInterleaving.result, hdicts, PredictCall.answer, hcall.ok, hresults]
  exact tornCall_respond change k _ _ _

theorem torn_of_not_atomic {w : PredictInterleaving k} (h : ¬ w.IsAtomic change) :
    w.result (servedEstimator change) (nextFit change) (tornCall change k) ≠
        ((tornCall change k).run plainExtractor (.lambdarank (servedEstimator change))).2 ∧
      w.result (servedEstimator change) (nextFit change) (tornCall change k) ≠
        ((tornCall change k).run plainExtractor
          (.lambdarank ((servedEstimator change).afterFit (nextFit change)))).2 := by
  simp only [PredictInterleaving.IsAtomic, not_or, not_and_or, not_le, not_lt] at h
  obtain ⟨-, hk, hmodel, hlate⟩ := h
  obtain ⟨x, version, hresult, hvalues, hcodes, hversion⟩ := result_torn change hk w hmodel
  rw [hresult, run_before change hk, run_after]
  refine ⟨fun heq => ?_, fun heq => ?_⟩
  · have hx : x = 1 := neg_injective (callRanking_score hk heq)
    obtain hlate | hlate := hlate
    · rw [hcodes hlate] at hx
      exact absurd hx zero_ne_one
    · exact newVersion_ne ((hversion hlate).symm.trans (callRanking_version hk heq))
  · have hx := callRanking_score hk heq
    obtain rfl | rfl := hvalues
    · norm_num at hx
    · norm_num at hx

theorem refits_nextFit (change : CodesChange) : Refits (servedEstimator change) (nextFit change) := by
  refine ⟨?_, fun hdegrades => ?_⟩
  · rw [(served change).config]
    cases change <;> decide
  · obtain ⟨-, exc, hexc, -⟩ := hdegrades
    exact ((servedEstimator change).not_installs_iff (nextFit change)).mpr (.inl ⟨exc, hexc⟩)
      (afterFit_nextFit change).2.2

/-- The refit changes the codes of the call as it is meant to. -/
theorem codesChange_served (hchange : change ≠ .untouched) (hk : k ≠ 0) :
    (servedEstimator change).codesChange (nextFit change) (tornCall change k) = change := by
  obtain ⟨-, hextractor, -, -, -, -, hencoder⟩ := served change
  have hchanges : (servedEstimator change).codesChange (nextFit change) (tornCall change k) =
      if decide (change = .rebuilt) then .rebuilt
      else if trainedEncoder.Knows (plainRows (nextRecords change)) ∨
          trainedEncoder.Knows (List.replicate k (callFeatures change)) then .kept
      else .extended := by
    rw [LambdaRankEstimator.codesChange, PredictCall.featureDicts, hextractor, nextFit_rows,
      tornCall_features, served_fullRefitDue, hencoder]
  rw [hchanges]
  cases change with
  | untouched => exact absurd rfl hchange
  | rebuilt => rfl
  | kept =>
    have hknows : trainedEncoder.Knows (plainRows (nextRecords .kept)) := Encoder.fresh.knows_extend _
    rw [if_neg (by decide), if_pos (Or.inl hknows)]
  | extended =>
    have hnot : ¬ (trainedEncoder.Knows (plainRows (nextRecords .extended)) ∨
        trainedEncoder.Knows (List.replicate k (callFeatures .extended))) := by
      rintro (hknows | hknows)
      · have hscan := hknows _ (List.mem_cons_self ..) "task_type" (by decide)
        revert hscan
        decide +kernel
      · have hmail := hknows _ (List.mem_replicate.mpr ⟨hk, rfl⟩) "task_type" (by decide)
        revert hmail
        decide +kernel
    rw [if_neg (by decide), if_neg hnot]

/-! ## Exactly the atomic interleavings -/

/-- A call without candidates reads nothing. -/
theorem result_of_no_candidates (w : PredictInterleaving 0) (e : LambdaRankEstimator) (i : FitInput)
    {call : PredictCall} (hcall : call.versionReads = 0) :
    w.result e i call = (call.run e.extractor (.lambdarank e)).2 := by
  cases call with
  | predict taskType payloadSize metadata now => cases hcall
  | predictScores candidates =>
    obtain rfl := List.eq_nil_of_length_eq_zero hcall
    have hok := exec_invariant (w := w.steps) (l := retrainStep i)
      (r := predictStep ((PredictCall.predictScores []).featureDicts e.extractor))
      (s := (PredictCall.predictScores []).start e) (P := fun _ _ s => s.predict.raised = none) rfl
      (fun m _ s h => by rw [retrainStep_predict]; exact h)
      (fun n _ s h => by
        rw [predictStep_of_ok h]
        cases predictAction n with
        | encodeRows =>
          simp only [PredictThread.effect]
          split <;> exact h
        | _ => exact h)
    rw [PredictInterleaving.result, PredictCall.answer, hok]
    rfl

/-- The prediction reads the model, the whole refit runs, and the prediction goes on. -/
def tornInterleaving : PredictInterleaving 1 where
  steps := List.replicate 2 .right ++ List.replicate 11 .left ++ List.replicate 4 .right
  retrain_steps := by decide
  predict_steps := by decide

end Chronoq.Ranker
