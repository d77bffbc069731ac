import Chronoq.Ranker.DurationEstimates
import Chronoq.Ranker.FailedRetrain

/-! # Rankers that meet no fault

Where nothing outside the ranker raises, a retrain on a batch that can be trained on and compared with a
reference installs what the batch calls for (`retrain_of_choice`). Then `record` returns, and every
`retrain_every_n`-th record leaves the estimator that the store calls for (`record_faultFree`).
Predictions do not change the type (`Sound.predicted`).

`trains_default` and `columns_default` say what `DefaultExtractor` needs of the records for that. -/

namespace Chronoq.Ranker
open Foundations

set_option autoImplicit false

/-- Nothing outside the ranker raises. -/
structure RankerEnv.FaultFree (env : RankerEnv) : Prop extends env.Trains where
  save : env.faults.save = none
  getAll : env.faults.getAll = none
  setReference : env.faults.setReference = none

/-! ## Records that can be read -/

section Read
variable {records : List TaskRecord}

/-- What `DefaultExtractor` and the fallback need of a record. -/
structure Ordinary (record : TaskRecord) : Prop where
  inRange : record.InRange
  payloadSize : FitsSingle (floatOfInt record.payloadSize)
  queueDepth : FitsSingle ((record.metadata.lookup "queue_depth").getD (.int 0)).toFloat

theorem gradientReadsAll_of_ordinary (h : ∀ r ∈ records, Ordinary r)
    (hlength : records.length < 2 ^ 53) : GradientReadsAll records := by
  intro r hr
  refine ⟨(h r hr).payloadSize, (h r hr).queueDepth, isSingle_intCast (n := (List.idxOf _ _ : ℕ)) ?_⟩
  have hclasses : (GradientEstimator.labelClasses (records.map TaskRecord.taskType)).length ≤
      records.length := by
    rw [GradientEstimator.labelClasses, List.length_insertionSort]
    exact (List.dedup_sublist _).length_le.trans_eq (List.length_map _)
  rw [Int.natAbs_natCast]
  exact (List.idxOf_le_length.trans hclasses).trans_lt hlength

theorem trains_default {text : PyValue → String} (h : ∀ r ∈ records, Ordinary r)
    (hlength : records.length < 2 ^ 53) (config : RankerConfig) :
    ¬ TrainingRaises config (defaultExtractor text) records := by
  rintro ⟨-, hunread | ⟨-, hbad⟩⟩
  · refine hunread fun r hr => ?_
    obtain ⟨r₀, hr₀, rfl⟩ := exists_of_mem_rowRecords hr
    exact defaultExtractor_reads_iff.mpr (h r₀ hr₀).inRange
  · exact hbad (gradientReadsAll_of_ordinary h hlength)

theorem columns_default {text : PyValue → String} (h : ∀ r ∈ records, r.InRange) {d : DriftDetector}
    (hd : d.extractor = defaultExtractor text) : ¬ d.Unreadable records := by
  rintro ⟨col, hcol, record, hrecord, exc, hexc⟩
  rw [hd] at hcol
  have hreads : (defaultExtractor text).Reads record := defaultExtractor_reads_iff.mpr (h record hrecord)
  obtain ⟨fdict, hfdict, hreadable⟩ := hreads
  obtain ⟨x, hx⟩ := hreadable col hcol
  rw [DriftDetector.valueOf, hd, hfdict] at hexc
  cases hexc.symm.trans (entryAt_of_floatAt hx)

end Read

namespace TaskRanker

def RecordOutcome.returns : RecordOutcome → Bool
  | .notSaved _ => false
  | .saved => true
  | .retrained result => result.toOption.isSome

/-! ## Retrains -/

section Retrain
variable {r : TaskRanker} {env : RankerEnv}

/-- The drift check lets a retrain through if the columns of its batch can be read. -/
theorem driftCheck_passes (hr : r.Sound) (htrains : env.Trains)
    (hcolumns : ¬ r.driftDetector.Unreadable r.store) :
    driftCheckRaises (r.checkDrift env).2 = none := by
  rw [checkDrift, htrains.check]
  show driftCheckRaises (r.driftDetector.check env.numpy r.store).2 = none
  by_cases hempty : r.driftDetector.reference = []
  · rw [DriftDetector.check_without_reference _ _ hempty]
    rfl
  · have hvalues : ∀ entry ∈ r.driftDetector.reference,
        ∃ values, r.driftDetector.columnValues r.store entry.1 = .ok values := by
      intro entry hentry
      by_contra hraises
      obtain ⟨exc, hexc⟩ := exists_error_iff.mpr hraises
      exact hcolumns ⟨entry.1, hr.watches.2 entry hentry,
        (DriftDetector.columnValues_error_iff entry.1).mp ⟨exc, hexc⟩⟩
    obtain ⟨report, hcheck⟩ := DriftDetector.check_ok env.numpy r.store hvalues hempty
    rw [hcheck]
    rfl

/-- The estimator that the snapshot calls for is trained, if the training does not raise. -/
theorem newEstimator_of_choice (hr : r.Sound) (htrains : env.Trains) {t : ModelType}
    (hchoice : choice r.config r.store = some t)
    (htraining : ¬ TrainingRaises r.config r.extractor r.store) :
    ∃ e metrics, (r.newEstimator env r.store).2 = .ok (e, metrics) ∧ e.modelType = t := by
  by_cases h : r.estimator.modelType = .lambdarank
  · have hlambdarank := hr.choice_lambdarank h
    obtain ⟨hwarm, hgroups⟩ := choice_eq_lambdarank_iff.mp hlambdarank
    cases hl : r.estimator with
    | heuristic => rw [hl] at h; cases h
    | gradient => rw [hl] at h; cases h
    | lambdarank l =>
      have hfollows := hr.follows
      rw [hl] at hfollows
      obtain ⟨hconfig, hextractor⟩ := hfollows
      have hreads : Prepares l.extractor r.store := by
        rw [hextractor]
        by_contra hunread
        exact htraining ⟨hwarm, .inl hunread⟩
      rw [← hconfig] at hgroups
      obtain ⟨metrics, hfit⟩ := fitOrDegrade_of_groups r.config htrains hreads hgroups
      refine ⟨.lambdarank (l.afterFit ⟨env.toFitEnv, r.store⟩), metrics, ?_, ?_⟩
      · rw [newEstimator, if_pos hwarm, hl]
        exact congrArg Prod.snd hfit
      · rw [hchoice] at hlambdarank
        exact (Option.some.inj hlambdarank).symm
  · have houtcome := outcome_of_trained r.config r.store htrains hr.proper
    rw [newEstimator_eq_trained h]
    generalize trained r.config r.extractor env r.store = result at houtcome
    cases houtcome with
    | chosen htype =>
      rw [hchoice] at htype
      exact ⟨_, _, rfl, (Option.some.inj htype).symm⟩
    | raised hraises => exact absurd hraises htraining
    | refused hnone =>
      rw [hchoice] at hnone
      cases hnone

/-- A retrain that meets no fault outside the ranker installs what its snapshot calls for. -/
theorem retrain_of_choice (hr : r.Sound) (htrains : env.Trains) (hgetAll : env.faults.getAll = none)
    (hstores : env.faults.setReference = none) {t : ModelType}
    (hchoice : choice r.config r.store = some t)
    (htraining : ¬ TrainingRaises r.config r.extractor r.store)
    (hcolumns : ¬ r.driftDetector.Unreadable r.store) :
    (∃ result, (r.retrain env).2 = .ok result) ∧ (r.retrain env).1.estimator.modelType = t := by
  have hpasses := driftCheck_passes hr htrains hcolumns
  obtain ⟨e, metrics, hnew, htype⟩ := newEstimator_of_choice hr htrains hchoice htraining
  have hchecked : ((r.driftChecked env).newEstimator env r.store).2 =
      (r.newEstimator env r.store).2 := by
    unfold newEstimator driftChecked
    dsimp only
    split
    · split <;> rfl
    · rfl
  have hswap : r.swapsIn env = some (e, metrics) := by
    rw [swapsIn, hgetAll, hpasses]
    dsimp only
    rw [hchecked, hnew]
    rfl
  refine ⟨?_, ?_⟩
  · cases hresult : (r.retrain env).2 with
    | ok result => exact ⟨result, rfl⟩
    | error exc =>
      have hraises := (retrain_error_iff_of_swapped hswap).mp ⟨exc, hresult⟩
      rcases hraises.2.2 with hfault | hunreadable
      · exact absurd hstores hfault
      · exact absurd hunreadable hcolumns
  · rw [retrain_estimator_of_swapped hswap]
    exact htype

theorem retrain_counter_of_readable (hr : r.Sound) (htrains : env.Trains)
    (hgetAll : env.faults.getAll = none) (hcolumns : ¬ r.driftDetector.Unreadable r.store) :
    (r.retrain env).1.recordsSinceLastRetrain = 0 := by
  have hpasses := driftCheck_passes hr htrains hcolumns
  have hlate : ¬ r.RaisesEarly env := by
    rintro (hfault | hraises)
    · exact hfault hgetAll
    · exact hraises hpasses
  rw [retrain_counter, if_neg hlate]

end Retrain

/-! ## Predictions -/

theorem predict_fixed (e : Estimator) (features : FeatureDict) :
    (e.predict features).1.modelType = e.modelType ∧
      ∀ {config : RankerConfig} {extractor : FeatureExtractor}, e.Follows config extractor →
        (e.predict features).1.Follows config extractor := by
  cases e with
  | heuristic h => exact ⟨rfl, fun hfollows => hfollows⟩
  | gradient g => exact ⟨rfl, fun hfollows => hfollows⟩
  | lambdarank l =>
    refine ⟨rfl, fun hfollows => ?_⟩
    show (l.predict features).1.config = _ ∧ (l.predict features).1.extractor = _
    unfold LambdaRankEstimator.predict
    split
    · exact hfollows
    · exact hfollows

section Predict
variable {r : TaskRanker} (taskType : String) (payloadSize : ℤ) (metadata : Dict String PyValue)
  (now : Instant)

theorem modelType_predicted :
    (r.predicted (.predict taskType payloadSize metadata now)).estimator.modelType = r.estimator.modelType :=
  (predict_fixed r.estimator _).1

theorem Sound.predicted (hr : r.Sound) :
    (r.predicted (.predict taskType payloadSize metadata now)).Sound where
  proper := hr.proper
  watches := hr.watches
  unwatched := fun hother => hr.unwatched (by rwa [modelType_predicted] at hother)
  follows := (predict_fixed r.estimator _).2 hr.follows
  earlier := by
    rw [modelType_predicted]
    exact hr.earlier

/-- The answer names the type that is installed. -/
theorem modelType_of_predictOn {result : PredictionResult}
    (h : r.predictOn taskType payloadSize metadata now = .ok (.prediction result)) :
    result.modelType = r.estimator.modelType := by
  obtain ⟨scored, -, hresult⟩ := exists_of_map_ok h
  cases hresult
  exact (predict_fixed r.estimator _).1

end Predict

/-! ## Records -/

section Record
variable {r : TaskRanker} {env : RankerEnv} {call : RecordCall}

/-- What the call saves, if it does. -/
def storedRecord (r : TaskRanker) (env : RankerEnv) (call : RecordCall) : Option TaskRecord :=
  if env.faults.save = none then some (r.recordOf call env.now) else none

/-- Whatever else the call does, it is this that goes to the store. -/
theorem record_store (r : TaskRanker) (env : RankerEnv) (call : RecordCall) :
    (r.record env call).1.store = r.store ++ (r.storedRecord env call).toList := by
  unfold record storedRecord
  split
  · next exc hsave =>
    rw [hsave, if_neg (by simp)]
    exact (List.append_nil _).symm
  · next hsave =>
    rw [if_pos hsave]
    dsimp only
    split
    · exact ((r.saved env call).retrain_sameSetup env).store
    · rfl

theorem isSome_storedRecord_of_returns (h : (r.record env call).2.returns = true) :
    (r.storedRecord env call).isSome = true := by
  unfold record at h
  unfold storedRecord
  split at h
  · cases h
  · next hsave =>
    rw [if_pos hsave]
    rfl

/-- What a record that meets no fault leaves behind. -/
structure Recorded (r : TaskRanker) (env : RankerEnv) (call : RecordCall) (t : ModelType)
    (r' : TaskRanker) : Prop where
  sound : r'.Sound
  config : r'.config = r.config
  extractor : r'.extractor = r.extractor
  store : r'.store = r.store ++ [r.recordOf call env.now]
  due : r.config.retrainEveryN ≤ (r.recordsSinceLastRetrain + 1 : ℕ) →
    r'.recordsSinceLastRetrain = 0 ∧ r'.estimator.modelType = t
  notDue : (r.recordsSinceLastRetrain + 1 : ℕ) < r.config.retrainEveryN →
    r'.recordsSinceLastRetrain = r.recordsSinceLastRetrain + 1 ∧
      r'.estimator.modelType = r.estimator.modelType

theorem record_faultFree (hr : r.Sound) (hfree : env.FaultFree) {t : ModelType}
    (hchoice : choice r.config (r.store ++ [r.recordOf call env.now]) = some t)
    (htraining : ¬ TrainingRaises r.config r.extractor (r.store ++ [r.recordOf call env.now]))
    (hcolumns : ¬ r.driftDetector.Unreadable (r.store ++ [r.recordOf call env.now])) :
    (r.record env call).2.returns = true ∧ r.Recorded env call t (r.record env call).1 := by
  have hsound := hr.saved env call
  obtain ⟨⟨result, hresult⟩, htype⟩ :=
    retrain_of_choice hsound hfree.toTrains hfree.getAll hfree.setReference hchoice htraining hcolumns
  have hsame := (r.saved env call).retrain_sameSetup env
  rw [record, hfree.save]
  dsimp only
  split
  · next hdue =>
    refine ⟨by rw [RecordOutcome.returns, hresult]; rfl, ?_⟩
    exact {
      sound := hsound.retrain hfree.toTrains
      config := hsame.config
      extractor := hsame.extractor
      store := hsame.store
      due := fun _ =>
        ⟨retrain_counter_of_readable hsound hfree.toTrains hfree.getAll hcolumns, htype⟩
      notDue := fun hnot => absurd hdue (not_le.mpr hnot) }
  · next hnot =>
    exact ⟨rfl, {
      sound := hsound
      config := rfl
      extractor := rfl
      store := rfl
      due := fun hdue => absurd hdue hnot
      notDue := fun _ => ⟨rfl, rfl⟩ }⟩

end Record

end TaskRanker

end Chronoq.Ranker
