import Chronoq.Ranker.Predictions
import Chronoq.Ranker.Versions

/-! # Does `predict` return a duration?

`TaskRanker.predict` puts whatever its estimator returns first into `estimated_ms`. A heuristic
returns a mean of recorded durations, a gradient estimator a prediction of at least one millisecond or
the mean of its fallback. A LambdaRank estimator returns the negated ranking score of its model.

* `Positive`: what keeps the first two positive, for an estimator and for a whole ranker. Every call
  keeps it while only positive durations are recorded (`positive_step`).
* `Estimator.Accepts`: a gradient estimator puts the payload into a row for sklearn, which takes no
  number out of the range of single precision.
* `TaskRanker.PredictsDuration`: the call returns, and with any metadata what it returns is positive
  and not a negated ranking score. -/

namespace Chronoq.Ranker
open Foundations

set_option autoImplicit false

def AllPositive (records : List TaskRecord) : Prop := ∀ record ∈ records, 0 < record.actualMs

/-! ## The three estimators -/

namespace HeuristicEstimator

/-- The means are positive. -/
structure Positive (h : HeuristicEstimator) : Prop where
  globalMean : 0 < h.globalMean
  stats : ∀ taskType s, h.stats.lookup taskType = some s → 0 < s.mean

theorem positive_new : Positive {} where
  globalMean := by decide
  stats _ _ hlookup := by simp at hlookup

theorem Positive.predictType {h : HeuristicEstimator} (hh : h.Positive) (taskType : String) :
    0 < (h.predictType taskType).1 := by
  unfold HeuristicEstimator.predictType
  split
  · norm_num
  · split
    · next s hs => exact hh.stats taskType s hs
    · exact hh.globalMean

/-- What is stored for a type is the estimate of its values. -/
theorem statsOf_mean_pos {records : List TaskRecord} (hpos : AllPositive records) (sqrt : ℚ → ℚ)
    (taskType : String) (s : TypeEstimate) (h : (statsOf sqrt records).lookup taskType = some s) :
    0 < s.mean := by
  have hvalues : ∀ t ∈ (records.map TaskRecord.taskType).dedup,
      0 < (typeEstimate sqrt (valuesOfType records t)).mean := by
    intro t ht
    obtain ⟨r, hr, rfl⟩ := List.mem_map.mp (List.mem_dedup.mp ht)
    refine mean_pos ?_ fun x hx => ?_
    · have hmem : r.actualMs ∈ valuesOfType records r.taskType :=
        List.mem_map_of_mem (List.mem_filter.mpr ⟨hr, decide_eq_true rfl⟩)
      exact List.ne_nil_of_mem hmem
    · obtain ⟨r', hr', rfl⟩ := List.mem_map.mp hx
      exact hpos r' (List.mem_filter.mp hr').1
  unfold statsOf at h
  generalize (records.map TaskRecord.taskType).dedup = types at h hvalues
  -- from the last type on: it is the one inserted last that is found
  induction types using List.reverseRecOn with
  | nil => simp at h
  | append_singleton types t ih =>
    rw [List.foldl_append, List.foldl_cons, List.foldl_nil] at h
    by_cases heq : taskType = t
    · rw [heq, Finmap.lookup_insert] at h
      rw [← Option.some.inj h]
      exact hvalues t (List.mem_append_right _ (List.mem_singleton_self t))
    · rw [Finmap.lookup_insert_of_ne _ heq] at h
      exact ih h fun t' ht' => hvalues t' (List.mem_append_left _ ht')

theorem Positive.fit {h : HeuristicEstimator} (hh : h.Positive) (sqrt : ℚ → ℚ)
    {records : List TaskRecord} (hpos : AllPositive records) : (h.fit sqrt records).1.Positive where
  globalMean := by
    simp only [HeuristicEstimator.fit]
    split
    · exact hh.globalMean
    · next hne =>
      refine mean_pos (by simpa using hne) fun x hx => ?_
      obtain ⟨r, hr, rfl⟩ := List.mem_map.mp hx
      exact hpos r hr
  stats := statsOf_mean_pos hpos sqrt

end HeuristicEstimator

/-- A gradient estimator predicts at least a millisecond or what its fallback predicts. -/
theorem gradient_predict_pos {g : GradientEstimator} (hg : g.heuristicFallback.Positive)
    {features : FeatureDict} {scored : ℚ × ℚ} (h : g.predict features = .ok scored) : 0 < scored.1 := by
  unfold GradientEstimator.predict at h
  split at h
  · cases h
    exact hg.predictType _
  · split at h
    · cases hx : g.buildFeatureMatrix [features] with
      | error exc =>
        rw [hx] at h
        cases h
      | ok x =>
        rw [hx] at h
        simp only [bind, Except.bind] at h
        split at h
        · cases h
        · cases h
          exact zero_lt_one.trans_le (le_max_left _ _)
    · cases h
      exact hg.predictType _

def Estimator.Positive : Estimator → Prop
  | .heuristic h => h.Positive
  | .gradient g => g.heuristicFallback.Positive
  | .lambdarank _ => True

theorem Estimator.Positive.predict {e : Estimator} (he : e.Positive) (hother : e.modelType ≠ .lambdarank)
    {features : FeatureDict} {scored : ℚ × ℚ} (h : (e.predict features).2 = .ok scored) :
    0 < scored.1 := by
  cases e with
  | heuristic hest =>
    cases h
    exact HeuristicEstimator.Positive.predictType he _
  | gradient g => exact gradient_predict_pos he h
  | lambdarank l => exact absurd rfl hother

theorem Estimator.Positive.afterPredict {e : Estimator} (he : e.Positive) (features : FeatureDict) :
    (e.predict features).1.Positive := by
  cases e with
  | heuristic hest => exact he
  | gradient g => exact he
  | lambdarank l => trivial

theorem Estimator.Positive.afterPredictBatch {e : Estimator} (he : e.Positive)
    (featureDicts : List FeatureDict) : (e.predictBatch featureDicts).1.Positive := by
  cases e with
  | heuristic hest => exact he
  | gradient g => exact he
  | lambdarank l => trivial

/-- A gradient estimator that has a model for the type can read the payload size and the code of the
type. -/
def Estimator.Accepts (e : Estimator) (taskType : String) (payloadSize : ℤ) : Prop :=
  match e with
  | .gradient g => g.model ≠ none → taskType ∈ g.knownTypes →
      FitsSingle (floatOfInt payloadSize) ∧
        (ExtFloat.finite (g.labelEncoder.idxOf taskType : ℕ)).isSingle = true
  | _ => True

/-! ## Training -/

section Training
variable {config : RankerConfig} {env : RankerEnv} {records : List TaskRecord}

theorem fitHeuristic_positive (hpos : AllPositive records) {fitted : Estimator × FitMetrics}
    (h : fitHeuristic env records = .ok fitted) : fitted.1.Positive := by
  unfold fitHeuristic at h
  split at h
  · cases h
  · cases h
    exact HeuristicEstimator.positive_new.fit env.sqrt hpos

theorem fitOrDegrade_positive {l : LambdaRankEstimator} (hpos : AllPositive records)
    {fitted : Estimator × FitMetrics} (h : (fitOrDegrade config env l records).2 = .ok fitted) :
    fitted.1.Positive := by
  unfold fitOrDegrade at h
  split at h
  · cases h
    trivial
  · split at h
    · obtain ⟨gradient, hgradient, rfl⟩ := exists_of_map_ok h
      show gradient.1.heuristicFallback.Positive
      rw [(gradient_fit_spec hgradient).1]
      exact HeuristicEstimator.positive_new.fit env.sqrt hpos
    · cases h

end Training

namespace TaskRanker

structure Positive (r : TaskRanker) : Prop where
  store : AllPositive r.store
  estimator : r.estimator.Positive

theorem newEstimator_positive {r : TaskRanker} (hr : r.Positive) (env : RankerEnv) :
    (r.newEstimator env r.store).1.estimator.Positive ∧
      ∀ fitted, (r.newEstimator env r.store).2 = .ok fitted → fitted.1.Positive := by
  unfold newEstimator
  split
  · split
    · exact ⟨trivial, fun fitted h => fitOrDegrade_positive hr.store h⟩
    · exact ⟨hr.estimator, fun fitted h => fitOrDegrade_positive hr.store h⟩
  · exact ⟨hr.estimator, fun fitted h => fitHeuristic_positive hr.store h⟩

theorem Positive.retrain {r : TaskRanker} (hr : r.Positive) (env : RankerEnv) :
    (r.retrain env).1.Positive := by
  refine ⟨?_, ?_⟩
  · rw [(r.retrain_sameSetup env).store]
    exact hr.store
  · obtain ⟨exc, -, hretrain⟩ | ⟨exc, -, -, hretrain⟩ | ⟨-, -, hretrain⟩ := r.retrain_cases env
    · rw [hretrain]
      exact hr.estimator
    · rw [hretrain]
      exact hr.estimator
    · have hchecked : (r.driftChecked env).Positive := ⟨hr.store, hr.estimator⟩
      obtain ⟨hkept, htrained⟩ := newEstimator_positive hchecked env
      have hrefit := (r.driftChecked env).refit_estimator env r.store r.estimator.modelType
      rw [hretrain]
      simp only [settle]
      rw [hrefit]
      have hstore : (r.driftChecked env).store = r.store := rfl
      rw [hstore] at hkept htrained
      generalize (r.driftChecked env).newEstimator env r.store = fitted at hkept htrained ⊢
      obtain ⟨r₁, exc | fitted⟩ := fitted
      · exact hkept
      · exact htrained fitted rfl

theorem Positive.saved {r : TaskRanker} (hr : r.Positive) (env : RankerEnv) {call : RecordCall}
    (hcall : 0 < call.actualMs) : (r.saved env call).Positive where
  store := by
    intro record hrecord
    rcases List.mem_append.mp hrecord with hold | hnew
    · exact hr.store record hold
    · rw [List.mem_singleton.mp hnew]
      exact hcall
  estimator := hr.estimator

theorem positive_construct {config : RankerConfig} {extractor : FeatureExtractor}
    {store : List TaskRecord} (hstore : AllPositive store) {env : RankerEnv} {r : TaskRanker}
    (h : construct config extractor store env = .ok r) : r.Positive := by
  have hnew : (fresh config extractor store).Positive := ⟨hstore, HeuristicEstimator.positive_new⟩
  by_cases hne : store = []
  · subst hne
    cases h
    exact hnew
  · rw [construct_eq hne] at h
    obtain ⟨fitted, hfitted, rfl⟩ := exists_of_map_ok h
    refine ⟨hstore, ?_⟩
    show fitted.1.Positive
    unfold trained at hfitted
    split at hfitted
    · exact fitOrDegrade_positive hstore hfitted
    · exact fitHeuristic_positive hstore hfitted

end TaskRanker

/-! ## Runs with predictions -/

inductive ServingCall
  | update (a : RankerStep)
  | predict (call : PredictCall)

namespace TaskRanker

/-- The ranker after a prediction, which changes the encoder of a LambdaRank estimator. -/
def predicted (r : TaskRanker) (call : PredictCall) : TaskRanker :=
  { r with estimator := (call.run r.extractor r.estimator).1 }

abbrev ServingSteps : TaskRanker → ServingCall → TaskRanker → Prop := fun r a r' =>
  match a with
  | .update a => Steps r a r'
  | .predict call => r.predicted call = r'

/-- A recorded duration is positive. -/
def RecordsPositive (_ : TaskRanker) : ServingCall → Prop
  | .update (.record _ call) => 0 < call.actualMs
  | _ => True

theorem Positive.predicted {r : TaskRanker} (hr : r.Positive) (call : PredictCall) :
    (r.predicted call).Positive := by
  refine ⟨hr.store, ?_⟩
  show (call.run r.extractor r.estimator).1.Positive
  unfold PredictCall.run
  split
  · exact hr.estimator.afterPredict _
  · exact hr.estimator
  · split
    · exact hr.estimator
    · exact hr.estimator.afterPredictBatch _

/-- Every call keeps a ranker positive that records positive durations only. -/
theorem positive_step {r r' : TaskRanker} {a : ServingCall} (h : ServingSteps r a r')
    (hrecords : r.RecordsPositive a) (hr : r.Positive) : r'.Positive := by
  cases a with
  | predict call =>
    obtain rfl := h
    exact hr.predicted call
  | update a =>
    obtain rfl := h
    obtain ⟨env, call, rfl, -, hstep⟩ | ⟨env, call, rfl, -, -, hstep⟩ |
      ⟨env, call, rfl, -, -, hstep⟩ | ⟨env, rfl, hstep⟩ := r.step_cases a
    · rw [hstep]
      exact hr
    · rw [hstep]
      exact hr.saved env hrecords
    · rw [hstep]
      exact (hr.saved env hrecords).retrain env
    · rw [hstep]
      exact hr.retrain env

/-! ## What `predict` returns -/

/-- What `predict` returns or raises. -/
def predictOn (r : TaskRanker) (taskType : String) (payloadSize : ℤ)
    (metadata : Dict String PyValue) (now : Instant) : Except PyException Response :=
  ((PredictCall.predict taskType payloadSize metadata now).run r.extractor r.estimator).2

/-- `value` is the negated score that a LambdaRank model gives the row of the features. -/
def NegatedScore (r : TaskRanker) (features : FeatureDict) (value : ℚ) : Prop :=
  ∃ l model x, r.estimator = .lambdarank l ∧ l.model = some model ∧
    (l.encoder.buildMatrix [features] false).2 = .ok x ∧ value = -(model.predict x).headD 0

structure PredictsDuration (r : TaskRanker) (taskType : String) (payloadSize : ℤ) (now : Instant) :
    Prop where
  /-- Without metadata the call returns. -/
  returns : ∃ result, r.predictOn taskType payloadSize ∅ now = .ok (.prediction result)
  duration : ∀ metadata result,
    r.predictOn taskType payloadSize metadata now = .ok (.prediction result) →
      0 < result.estimatedMs ∧
        ¬ r.NegatedScore (legacyExtractFeatures taskType payloadSize metadata now)
          result.estimatedMs

variable {r : TaskRanker} {taskType : String} {payloadSize : ℤ} {metadata : Dict String PyValue}
  {now : Instant}

/-- The estimate is the first of what the estimator returns for the features. -/
theorem estimatedMs_of_predictOn {result : PredictionResult}
    (h : r.predictOn taskType payloadSize metadata now = .ok (.prediction result)) :
    ∃ scored, (r.estimator.predict (legacyExtractFeatures taskType payloadSize metadata now)).2 =
      .ok scored ∧ result.estimatedMs = scored.1 := by
  obtain ⟨scored, hscored, hresult⟩ := exists_of_map_ok h
  cases hresult
  exact ⟨scored, hscored, rfl⟩

theorem gradient_predict_returns_iff {g : GradientEstimator} :
    (∃ scored, g.predict (legacyExtractFeatures taskType payloadSize ∅ now) = .ok scored) ↔
      (Estimator.gradient g).Accepts taskType payloadSize := by
  have hzero : FitsSingle (PyValue.int 0).toFloat :=
    ⟨_, floatOfInt_small (by decide), isSingle_intCast (by decide)⟩
  rw [gradient_predict_ok_iff, legacyExtractFeatures, legacy_taskTypeAt, legacy_takes_iff,
    Finmap.lookup_empty]
  refine forall₂_congr fun _ _ => ?_
  exact ⟨fun h => ⟨h.1, h.2.2⟩, fun h => ⟨h.1, hzero, h.2⟩⟩

/-- A LambdaRank estimator returns a zero or a negated score. -/
theorem PredictsDuration.not_lambdarank (h : r.PredictsDuration taskType payloadSize now) :
    r.estimator.modelType ≠ .lambdarank := by
  intro htype
  obtain ⟨result, hresult⟩ := h.returns
  obtain ⟨hpos, hnot⟩ := h.duration ∅ result hresult
  obtain ⟨scored, hscored, hestimate⟩ := estimatedMs_of_predictOn hresult
  cases hl : r.estimator with
  | heuristic => rw [hl] at htype; cases htype
  | gradient => rw [hl] at htype; cases htype
  | lambdarank l =>
    rw [hl] at hscored
    simp only [Estimator.predict, LambdaRankEstimator.predict] at hscored
    split at hscored
    · cases hscored
      rw [hestimate] at hpos
      exact lt_irrefl 0 hpos
    · next model hmodel =>
      dsimp only at hscored
      obtain ⟨x, hx, rfl⟩ := exists_of_map_ok hscored
      exact hnot ⟨l, model, x, hl, hmodel, hx, hestimate⟩

/-- A positive ranker predicts a duration exactly when neither a LambdaRank estimator is installed nor
a gradient one that cannot read the payload. -/
theorem predictsDuration_iff (hr : r.Positive) :
    r.PredictsDuration taskType payloadSize now ↔
      r.estimator.modelType ≠ .lambdarank ∧ r.estimator.Accepts taskType payloadSize := by
  constructor
  · intro h
    refine ⟨h.not_lambdarank, ?_⟩
    obtain ⟨result, hresult⟩ := h.returns
    obtain ⟨scored, hscored, -⟩ := estimatedMs_of_predictOn hresult
    cases hl : r.estimator with
    | heuristic => trivial
    | lambdarank => trivial
    | gradient g =>
      rw [hl] at hscored
      exact gradient_predict_returns_iff.mp ⟨scored, hscored⟩
  · rintro ⟨hother, haccepts⟩
    refine ⟨?_, fun metadata result hresult => ?_⟩
    · have hreturns : ∃ scored, (r.estimator.predict
          (legacyExtractFeatures taskType payloadSize ∅ now)).2 = .ok scored := by
        cases hl : r.estimator with
        | heuristic => exact ⟨_, rfl⟩
        | gradient g =>
          rw [hl] at haccepts
          exact gradient_predict_returns_iff.mpr haccepts
        | lambdarank l => rw [hl] at hother; exact absurd rfl hother
      obtain ⟨scored, hscored⟩ := hreturns
      simp only [predictOn, PredictCall.run]
      rw [hscored]
      exact ⟨_, rfl⟩
    · obtain ⟨scored, hscored, hestimate⟩ := estimatedMs_of_predictOn hresult
      rw [hestimate]
      refine ⟨hr.estimator.predict hother hscored, ?_⟩
      rintro ⟨l, -, -, hl, -⟩
      rw [hl] at hother
      exact hother rfl

/-- In every state of a run in which all recorded durations are positive, `predict` returns a
duration exactly when no LambdaRank estimator is installed, nor a gradient one that cannot read the
payload. -/
theorem predicts_duration_iff {config : RankerConfig} {extractor : FeatureExtractor}
    {store : List TaskRecord} (hstore : AllPositive store) {env₀ : RankerEnv} {r₀ : TaskRanker}
    (hr₀ : construct config extractor store env₀ = .ok r₀) {calls : List ServingCall}
    (h : Run (Guarded RecordsPositive ServingSteps) r₀ calls r) (taskType : String)
    (payloadSize : ℤ) (now : Instant) :
    r.PredictsDuration taskType payloadSize now ↔
      r.estimator.modelType ≠ .lambdarank ∧ r.estimator.Accepts taskType payloadSize := by
  have hr : r.Positive := by
    refine h.preserves (P := Positive) ?_ (positive_construct hstore hr₀)
    intro r a r' hstep hr
    exact positive_step hstep.1 hstep.2 hr
  exact predictsDuration_iff hr

/-! ## A warm start that ranks -/

theorem predicts_duration_iff_one_record :
    (idleRanker.saved (sampleEnv {}) resizeCall).PredictsDuration "resize" 512 0 ↔
      (idleRanker.saved (sampleEnv {}) resizeCall).estimator.modelType ≠ .lambdarank ∧
        (idleRanker.saved (sampleEnv {}) resizeCall).estimator.Accepts "resize" 512 := by
  have hr₀ : construct pairwise plainExtractor [] (sampleEnv {}) = .ok idleRanker := rfl
  have hstep : Guarded RecordsPositive ServingSteps idleRanker
      (.update (.record (sampleEnv {}) resizeCall)) (idleRanker.saved (sampleEnv {}) resizeCall) :=
    ⟨rfl, (by norm_num : (0 : ℚ) < 1)⟩
  exact predicts_duration_iff (fun _ hrecord => by cases hrecord) hr₀ (.single hstep) "resize" 512 0

def rankAtOnce : RankerConfig := { coldStartThreshold := 2, minGroups := 1 }

/-- A store with one group of two records, which is enough for LambdaRank. -/
def groupedStore : List TaskRecord := labelled "batch_1" "resize" "ocr"

/-- A ranker that warm-starts on two recorded durations serves the scores of its ranking model. -/
theorem ranking_score_served :
    ¬ ∀ (config : RankerConfig) (extractor : FeatureExtractor) (store : List TaskRecord)
        (env₀ : RankerEnv) (r₀ : TaskRanker), AllPositive store →
      construct config extractor store env₀ = .ok r₀ →
      ∀ calls r, Run (Guarded RecordsPositive ServingSteps) r₀ calls r →
        ∀ taskType payloadSize now, r.PredictsDuration taskType payloadSize now := by
  intro hall
  have hpos : AllPositive groupedStore := by
    unfold AllPositive groupedStore
    decide
  have hwarm : rankAtOnce.coldStartThreshold ≤ groupedStore.length := by decide
  have hgroups : (LambdaRankEstimator.new rankAtOnce plainExtractor).config.minGroups ≤
      (validGroupIds groupedStore).length := by decide
  obtain ⟨metrics, hfit⟩ := fitOrDegrade_of_groups rankAtOnce sampleEnv_trains
    (prepares_plain (plain_labelled _ _ _)) hgroups
  have hr₀ : construct rankAtOnce plainExtractor groupedStore (sampleEnv {}) = _ :=
    construct_eq (List.cons_ne_nil _ _)
  rw [trained, if_pos hwarm, hfit] at hr₀
  have hduration := hall _ _ _ _ _ hpos hr₀ [] _ (.nil _) "resize" 512 0
  exact hduration.not_lambdarank rfl

end TaskRanker

end Chronoq.Ranker
