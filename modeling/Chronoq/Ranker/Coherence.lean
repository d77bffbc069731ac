import Chronoq.Ranker.FitRuns

/-! # Does the encoder still hold the codes that the model was trained with?

A fit changes the encoder while it prepares the data and the model only at its end. An incremental
fit extends the encoder, which changes no code; a full fit rebuilds it, and if it then raises, the
model of before stays with an encoder that may number its categories differently.

* `Traced`: an estimator and the codes `(column, value, code)` of the rows that its model was trained
  on, through the whole warm-start chain.
* `Coherent`: the encoder still has every one of these codes.
* `LosesCodes`: a full refit is due, it raises after rebuilding the encoder, and the rebuilt encoder
  has another code for a value that the model was trained on. No other call breaks coherence. -/

namespace Chronoq.Ranker
open Foundations

set_option autoImplicit false

/-! ## States and calls -/

/-- A column, a category value and its code. -/
abbrev TrainedCode := String × String × ℕ

structure Traced where
  est : LambdaRankEstimator
  trained : List TrainedCode

inductive EstimatorCall
  | fit (i : FitInput)
  | predict (features : FeatureDict)
  | predictBatch (featureDicts : List FeatureDict)

namespace Traced

def start (config : RankerConfig) (extractor : FeatureExtractor) : Traced :=
  ⟨.new config extractor, []⟩

/-- The codes in the rows of `fdicts`. -/
def codesIn (encoder : Encoder) (fdicts : List FeatureDict) : List TrainedCode :=
  fdicts.flatMap fun fdict => catCols.map fun col =>
    (col, textAt fdict col, (encoder.codeOf col (textAt fdict col)).getD 0)

/-- The feature dictionaries of the rows that a fit trains on. -/
def trainDicts (e : LambdaRankEstimator) (i : FitInput) : List FeatureDict :=
  match featureRows e.extractor i.records with
  | .ok fdicts => fdicts.take (valStart i.records)
  | .error _ => []

def afterCall (s : Traced) : EstimatorCall → Traced
  | .fit i =>
    let est := s.est.afterFit i
    let codes := codesIn est.encoder (trainDicts s.est i)
    { est := est
      trained :=
        if s.est.Installs i then if s.est.fullRefitDue then codes else s.trained ++ codes
        else s.trained }
  | .predict features => { s with est := (s.est.predict features).1 }
  | .predictBatch featureDicts => { s with est := (s.est.predictBatch featureDicts).1 }

abbrev Steps : Traced → EstimatorCall → Traced → Prop := fun s call s' => s.afterCall call = s'

theorem Steps.unique (s : Traced) (call : EstimatorCall) (s' s'' : Traced) (h : Steps s call s')
    (h' : Steps s call s'') : s' = s'' :=
  h.symm.trans h'

def Coherent (s : Traced) : Prop :=
  ∀ t ∈ s.trained, s.est.encoder.codeOf t.1 t.2.1 = some t.2.2

def LosesCodes (s : Traced) : EstimatorCall → Prop
  | .fit i =>
    s.est.fullRefitDue = true ∧ s.est.refitModel i = none ∧
      ∃ fdicts, featureRows s.est.extractor i.records = .ok fdicts ∧
        ∃ t ∈ s.trained, (Encoder.fresh.extend fdicts).codeOf t.1 t.2.1 ≠ some t.2.2
  | _ => False

/-! ## One call -/

/-- The codes in the rows of a batch are those of an encoder that has seen the batch. -/
theorem codesIn_extend {encoder : Encoder} {fdicts : List FeatureDict} {n : ℕ} {t : TrainedCode}
    (h : t ∈ codesIn (encoder.extend fdicts) (fdicts.take n)) :
    (encoder.extend fdicts).codeOf t.1 t.2.1 = some t.2.2 := by
  obtain ⟨fdict, hmem, ht⟩ := List.mem_flatMap.mp h
  obtain ⟨col, hcol, rfl⟩ := List.mem_map.mp ht
  obtain ⟨n, hn⟩ := encoder.codeOf_extend_of_mem (List.mem_of_mem_take hmem) hcol
  simp [hn]

theorem predict_encoder (e : LambdaRankEstimator) (features : FeatureDict) :
    (e.predict features).1.encoder = e.encoder ∨
      (e.predict features).1.encoder = e.encoder.extend [features] := by
  unfold LambdaRankEstimator.predict
  split
  · exact .inl rfl
  · exact .inr rfl

theorem predictBatch_encoder (e : LambdaRankEstimator) (featureDicts : List FeatureDict) :
    (e.predictBatch featureDicts).1.encoder = e.encoder ∨
      (e.predictBatch featureDicts).1.encoder = e.encoder.extend featureDicts := by
  unfold LambdaRankEstimator.predictBatch
  split
  · exact .inl rfl
  · split
    · exact .inl rfl
    · exact .inr rfl

theorem coherent_of_extend {s : Traced} (hs : s.Coherent) {e : LambdaRankEstimator}
    (fdicts : List FeatureDict)
    (h : e.encoder = s.est.encoder ∨ e.encoder = s.est.encoder.extend fdicts) :
    Coherent { s with est := e } := by
  intro t ht
  rcases h with h | h
  · rw [h]
    exact hs t ht
  · rw [h]
    exact Encoder.codeOf_extend_of_some (hs t ht) fdicts

/-- What a fit does to the encoder, by whether it installs a model. -/
theorem afterFit_encoder_cases (e : LambdaRankEstimator) (i : FitInput) :
    (¬ e.Installs i ∧ (∃ exc, featureRows e.extractor i.records = .error exc) ∧
        (e.afterFit i).encoder = e.encoder) ∨
      (¬ e.Installs i ∧ e.fullRefitDue = false ∧
        ∃ fdicts, (e.afterFit i).encoder = e.encoder.extend fdicts) ∨
      (¬ e.Installs i ∧ e.fullRefitDue = true ∧ e.refitModel i = none ∧
        ∃ fdicts, featureRows e.extractor i.records = .ok fdicts ∧
          (e.afterFit i).encoder = Encoder.fresh.extend fdicts) ∨
      (e.Installs i ∧ (e.fullRefitDue = true → e.refitModel i ≠ none) ∧
        ∃ fdicts, featureRows e.extractor i.records = .ok fdicts ∧
          (e.afterFit i).encoder =
            (if e.fullRefitDue then Encoder.fresh else e.encoder).extend fdicts) := by
  unfold LambdaRankEstimator.Installs
  obtain ⟨result, hspec⟩ := e.afterFit_spec i
  generalize e.afterFit i = e' at hspec ⊢
  cases hspec with
  | unextracted hrows => exact .inl ⟨fun h => h rfl, ⟨_, hrows⟩, rfl⟩
  | fullFailed hdue hrows hwhy =>
    have hnone := LambdaRankEstimator.refitModel_eq_none hrows hwhy
    exact .inr (.inr (.inl ⟨fun h => h rfl, hdue, hnone, _, hrows, rfl⟩))
  | fullInstalled hdue hrows hx hgroups hfit =>
    have hsome := LambdaRankEstimator.refitModel_eq_some hrows hx hgroups hfit
    refine .inr (.inr (.inr ⟨Nat.succ_ne_self _, fun _ => by simp [hsome], _, hrows, ?_⟩))
    rw [hdue]
    rfl
  | incrementalFailed hdue hmodel hrows hwhy =>
    exact .inr (.inl ⟨fun h => h rfl, hdue, _, rfl⟩)
  | rejected hdue hmodel hrows hx hfit hgate =>
    exact .inr (.inl ⟨fun h => h rfl, hdue, _, rfl⟩)
  | accepted hdue hmodel hrows hx hfit hgate =>
    refine .inr (.inr (.inr ⟨Nat.succ_ne_self _, fun h => ?_, _, hrows, ?_⟩))
    · rw [hdue] at h
      cases h
    · rw [hdue]
      rfl

theorem afterCall_fit_of_not_installs {s : Traced} {i : FitInput} (h : ¬ s.est.Installs i) :
    s.afterCall (.fit i) = { s with est := s.est.afterFit i } := by
  simp only [afterCall, if_neg h]

theorem fit_coherent_iff {s : Traced} (hs : s.Coherent) (i : FitInput) :
    (s.afterCall (.fit i)).Coherent ↔ ¬ s.LosesCodes (.fit i) := by
  rcases afterFit_encoder_cases s.est i with ⟨hinst, ⟨exc, hrows⟩, hencoder⟩ |
    ⟨hinst, hdue, fdicts, hencoder⟩ | ⟨hinst, hdue, hnone, fdicts, hrows, hencoder⟩ |
    ⟨hinst, hsome, fdicts, hrows, hencoder⟩
  · rw [afterCall_fit_of_not_installs hinst]
    have hkeeps := coherent_of_extend hs [] (.inl hencoder)
    simp [LosesCodes, hrows, hkeeps]
  · rw [afterCall_fit_of_not_installs hinst]
    have hkeeps := coherent_of_extend hs fdicts (.inr hencoder)
    simp [LosesCodes, hdue, hkeeps]
  · rw [afterCall_fit_of_not_installs hinst]
    simp [LosesCodes, Coherent, hdue, hnone, hrows, hencoder]
  · have hkeeps : (s.afterCall (.fit i)).Coherent := by
      intro t ht
      simp only [afterCall, if_pos hinst, trainDicts, hrows] at ht ⊢
      rw [hencoder] at ht ⊢
      cases hdue : s.est.fullRefitDue with
      | true =>
        simp only [hdue, if_true] at ht ⊢
        exact codesIn_extend ht
      | false =>
        simp only [hdue, Bool.false_eq_true, if_false] at ht ⊢
        rcases List.mem_append.mp ht with hold | hnew
        · exact Encoder.codeOf_extend_of_some (hs t hold) fdicts
        · exact codesIn_extend hnew
    have hnot : ¬ s.LosesCodes (.fit i) := fun hloses => hsome hloses.1 hloses.2.1
    exact iff_of_true hkeeps hnot

/-- A call keeps a coherent estimator coherent exactly when it does not lose codes. -/
theorem call_coherent_iff {s s' : Traced} {call : EstimatorCall} (h : Steps s call s')
    (hs : s.Coherent) : s'.Coherent ↔ ¬ s.LosesCodes call := by
  obtain rfl := h
  cases call with
  | fit i => exact fit_coherent_iff hs i
  | predict features =>
    simp only [LosesCodes, not_false_eq_true, iff_true]
    exact coherent_of_extend hs _ (predict_encoder s.est features)
  | predictBatch featureDicts =>
    simp only [LosesCodes, not_false_eq_true, iff_true]
    exact coherent_of_extend hs _ (predictBatch_encoder s.est featureDicts)

/-! ## Predictions -/

/-- The model was trained on the category values of `fdict`. -/
def TrainedOn (s : Traced) (fdict : FeatureDict) : Prop :=
  ∀ col ∈ catCols, ∃ code, (col, textAt fdict col, code) ∈ s.trained

/-- With one model and the same codes for the values of `fdict`, the prediction is the same. -/
theorem predict_congr {e e' : LambdaRankEstimator} {fdict : FeatureDict}
    (hmodel : e'.model = e.model)
    (hcodes : ∀ col ∈ catCols, ∃ code, e.encoder.codeOf col (textAt fdict col) = some code ∧
      e'.encoder.codeOf col (textAt fdict col) = some code) :
    (e'.predict fdict).2 = (e.predict fdict).2 := by
  have hrow : (e'.encoder.extend [fdict]).row fdict = (e.encoder.extend [fdict]).row fdict := by
    refine Encoder.row_congr fun col hcol => ?_
    obtain ⟨code, hcode, hcode'⟩ := hcodes col hcol
    rw [Encoder.codeOf_extend_of_some hcode, Encoder.codeOf_extend_of_some hcode']
  unfold LambdaRankEstimator.predict
  rw [hmodel]
  split
  · rfl
  · simp only [Encoder.buildMatrix, Encoder.rows, List.mapM_cons, List.mapM_nil, hrow,
      Bool.false_eq_true, if_false]

theorem predict_unchanged {s : Traced} {i : FitInput} (hs : s.Coherent)
    (hs' : (s.afterCall (.fit i)).Coherent) (hinst : ¬ s.est.Installs i) {fdict : FeatureDict}
    (htrained : s.TrainedOn fdict) :
    ((s.est.afterFit i).predict fdict).2 = (s.est.predict fdict).2 := by
  refine predict_congr (LambdaRankEstimator.not_installs_spec hinst).1 fun col hcol => ?_
  obtain ⟨code, hcode⟩ := htrained col hcol
  rw [afterCall_fit_of_not_installs hinst] at hs'
  exact ⟨code, hs _ hcode, hs' _ hcode⟩

/-! ## Whole runs -/

/-- Along a run of calls the encoder stays coherent with the model exactly when no call loses codes;
and then a fit that raises or is rejected leaves the prediction unchanged on every feature dictionary
whose category values the model was trained on. -/
theorem encoder_coherent_iff (config : RankerConfig) (extractor : FeatureExtractor)
    {calls : List EstimatorCall} {s : Traced} (h : Run Steps (start config extractor) calls s) :
    (Throughout Steps Coherent (start config extractor) calls ↔
        EveryStep Steps (fun s call => ¬ s.LosesCodes call) (start config extractor) calls) ∧
      (EveryStep Steps (fun s call => ¬ s.LosesCodes call) (start config extractor) calls →
        EveryStep Steps (fun s call => ∀ i, call = .fit i →
          ((∃ exc, (s.est.fit i.env i.records).2 = .error exc) ∨
            ∃ metrics, (s.est.fit i.env i.records).2 = .ok metrics ∧ metrics.rejected = true) →
          ∀ fdict, s.TrainedOn fdict →
            ((s.est.afterFit i).predict fdict).2 = (s.est.predict fdict).2)
          (start config extractor) calls) := by
  have hstart : (start config extractor).Coherent := by
    intro t ht
    cases ht
  have hiff := throughout_iff_everyStep Steps.unique (fun _ _ _ => call_coherent_iff) h hstart
  refine ⟨hiff, fun hkeeps before call after t hsplit hrun i hcall hends fdict htrained => ?_⟩
  subst hcall
  have hall := hiff.mpr hkeeps
  have hnext : Run Steps (start config extractor) (before ++ [.fit i]) (t.afterCall (.fit i)) :=
    hrun.snoc rfl
  exact predict_unchanged (hall before (.fit i :: after) t hsplit hrun)
    (hall (before ++ [.fit i]) after _ (by simpa using hsplit) hnext)
    ((t.est.not_installs_iff i).mpr hends) htrained

/-! ## A full refit that raises -/

def refitEveryTime : RankerConfig := { minGroups := 1, fullRefitEveryNIncrementals := 0 }

/-- A fit on one group, with the codes `0` for `resize` and `1` for `ocr`. -/
def goodFit : FitInput :=
  sampleInput (positionBooster fun i => -i) (labelled "batch_1" "resize" "ocr")

/-- A fit on one group more, that sorts first and starts with `ocr`. LightGBM raises. -/
def raisingFit : FitInput where
  env := { goodFit.env with lightgbm := fun _ => .error (.raised "LightGBMError") }
  records := labelled "batch_1" "resize" "ocr" ++ labelled "batch_0" "ocr" "resize"

/-- The rows of the raising fit, the group that sorts first in front. -/
def raisingRows : List FeatureDict :=
  (labelled "batch_0" "ocr" "resize" ++ labelled "batch_1" "resize" "ocr").map fun r =>
    plainFeatures r.taskType r.payloadSize r.recordedAt

theorem encoder_coherent_iff_failed_refit :
    Throughout Steps Coherent (start refitEveryTime plainExtractor)
        [.fit goodFit, .fit raisingFit] ↔
      EveryStep Steps (fun s call => ¬ s.LosesCodes call) (start refitEveryTime plainExtractor)
        [.fit goodFit, .fit raisingFit] :=
  (encoder_coherent_iff refitEveryTime plainExtractor (.cons rfl (.single rfl))).1

theorem goodFit_trained :
    ("task_type", "resize", 0) ∈
      ((start refitEveryTime plainExtractor).afterCall (.fit goodFit)).trained := by
  obtain ⟨fdicts, x, hrows, -, hafter⟩ := LambdaRankEstimator.afterFit_full
    (e := .new refitEveryTime plainExtractor) (i := goodFit)
    (prepares_plain (plain_labelled _ _ _)) rfl
    (by decide) fun _ => rfl
  have hinst : (start refitEveryTime plainExtractor).est.Installs goodFit := by
    rw [LambdaRankEstimator.Installs, start, hafter]
    exact Nat.succ_ne_self _
  have hdue : (start refitEveryTime plainExtractor).est.fullRefitDue = true := rfl
  have hdicts : featureRows (LambdaRankEstimator.new refitEveryTime plainExtractor).extractor
      goodFit.records = .ok ((labelled "batch_1" "resize" "ocr").map fun r =>
        plainFeatures r.taskType r.payloadSize r.recordedAt) := featureRows_plain (plain_labelled _ _ _)
  rw [hdicts] at hrows
  cases hrows
  simp only [afterCall, if_pos hinst, if_pos hdue, trainDicts]
  rw [start, hafter]
  simp only [hdicts]
  decide

/-- After a full refit that raises, the encoder gives `resize` another code than the one that the
model, still the old one, was trained with. -/
theorem failed_refit_loses_codes :
    ¬ ∀ (calls : List EstimatorCall) (s : Traced),
      Run Steps (start refitEveryTime plainExtractor) calls s → s.Coherent := by
  intro hall
  have hcoherent := hall [.fit goodFit] _ (.single rfl)
  have hcoherent' := hall [.fit goodFit, .fit raisingFit] _ (.cons rfl (.single rfl))
  refine (fit_coherent_iff hcoherent raisingFit).mp hcoherent' ?_
  obtain ⟨fdicts, x, -, -, hafter⟩ := LambdaRankEstimator.afterFit_full
    (e := .new refitEveryTime plainExtractor) (i := goodFit)
    (prepares_plain (plain_labelled _ _ _)) rfl
    (by decide) fun _ => rfl
  have hdicts : featureRows plainExtractor raisingFit.records = .ok raisingRows :=
    featureRows_plain (List.forall_mem_append.mpr ⟨plain_labelled _ _ _, plain_labelled _ _ _⟩)
  refine ⟨?_, ?_, raisingRows, ?_, ("task_type", "resize", 0), goodFit_trained, ?_⟩
  · rw [afterCall, start, hafter]
    rfl
  · exact LambdaRankEstimator.refitModel_eq_none_of_raises fun _ => ⟨_, rfl⟩
  · rw [afterCall, start, hafter]
    exact hdicts
  · decide

end Traced

end Chronoq.Ranker
