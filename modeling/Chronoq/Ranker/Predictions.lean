import Chronoq.Ranker.Estimators

/-! # `TaskRanker.predict` and `TaskRanker.predict_scores`

Both take the installed estimator once, call it, and then read its version for every result they
build. A `PredictCall` is one such call with its arguments and the clock readings of its feature
extraction; `PredictCall.run` is the call when nothing runs beside it.

A ranking determines the scores it was made of, up to order, and the version of each rank
(`perm_of_scoredTasks_eq`, `version_of_scoredTasks_eq`). -/

namespace Chronoq.Ranker

set_option autoImplicit false

structure PredictionResult where
  estimatedMs : ℚ
  confidence : ℚ
  modelVersion : String
  modelType : ModelType
  deriving DecidableEq, Repr

structure ScoredTask where
  taskId : String
  score : ℚ
  rank : ℕ
  modelVersion : String
  modelType : ModelType
  deriving DecidableEq, Repr

/-! ## Ranking -/

/-- `scored.sort(key=lambda pair: pair[1])`, which is stable. -/
def sortByScore (scored : List (TaskCandidate × ℚ)) : List (TaskCandidate × ℚ) :=
  scored.insertionSort fun a b => a.2 ≤ b.2

/-- `version rank` is what `estimator.version()` returns when the task of that rank is built. -/
def scoredTasks (candidates : List TaskCandidate) (scores : List ℚ) (version : ℕ → String)
    (modelType : ModelType) : List ScoredTask :=
  (sortByScore (candidates.zip scores)).mapIdx fun rank scored =>
    { taskId := scored.1.taskId
      score := scored.2
      rank := rank
      modelVersion := version rank
      modelType := modelType }

section Ranking
variable {candidates : List TaskCandidate} {scores scores' : List ℚ} {version version' : ℕ → String}
  {modelType : ModelType}

theorem sortByScore_perm (scored : List (TaskCandidate × ℚ)) : (sortByScore scored).Perm scored :=
  List.perm_insertionSort _ _

theorem sortByScore_length (h : scores.length = candidates.length) :
    (sortByScore (candidates.zip scores)).length = candidates.length := by
  rw [(sortByScore_perm _).length_eq, List.length_zip]
  omega

theorem map_score_scoredTasks (candidates : List TaskCandidate) (scores : List ℚ)
    (version : ℕ → String) (modelType : ModelType) :
    (scoredTasks candidates scores version modelType).map ScoredTask.score =
      (sortByScore (candidates.zip scores)).map Prod.snd :=
  List.ext_getElem (by simp [scoredTasks]) fun rank _ _ => by simp [scoredTasks]

/-- The scores of a ranking are the scores it was made of. -/
theorem perm_of_scoredTasks_eq (h : scores.length = candidates.length)
    (h' : scores'.length = candidates.length)
    (heq : scoredTasks candidates scores version modelType =
      scoredTasks candidates scores' version' modelType) : scores.Perm scores' := by
  have hsnd : ∀ {scores : List ℚ}, scores.length = candidates.length →
      ((sortByScore (candidates.zip scores)).map Prod.snd).Perm scores := by
    intro scores h
    have hperm := (sortByScore_perm (candidates.zip scores)).map Prod.snd
    rwa [List.map_snd_zip (by omega)] at hperm
  have hscores := congrArg (List.map ScoredTask.score) heq
  rw [map_score_scoredTasks, map_score_scoredTasks] at hscores
  have hperm := hsnd h
  rw [hscores] at hperm
  exact hperm.symm.trans (hsnd h')

/-- The versions of a ranking are those read while it was built. -/
theorem version_of_scoredTasks_eq (h : scores.length = candidates.length)
    (h' : scores'.length = candidates.length)
    (heq : scoredTasks candidates scores version modelType =
      scoredTasks candidates scores' version' modelType) {rank : ℕ}
    (hrank : rank < candidates.length) : version rank = version' rank := by
  have hlen := sortByScore_length h
  have hlen' := sortByScore_length h'
  have hget := congrArg (fun tasks => tasks[rank]?.map ScoredTask.modelVersion) heq
  simp only [scoredTasks, List.getElem?_mapIdx, Option.map_map] at hget
  rw [List.getElem?_eq_getElem (by omega), List.getElem?_eq_getElem (by omega)] at hget
  exact Option.some.inj hget

theorem scoredTasks_congr (h : scores.length = candidates.length)
    (hversion : ∀ rank < candidates.length, version rank = version' rank) :
    scoredTasks candidates scores version modelType =
      scoredTasks candidates scores version' modelType := by
  have hlen := sortByScore_length h
  refine List.ext_getElem (by simp [scoredTasks]) fun rank hrank _ => ?_
  rw [scoredTasks, List.length_mapIdx, hlen] at hrank
  simp only [scoredTasks, List.getElem_mapIdx, hversion rank hrank]

end Ranking

/-! ## Calls -/

inductive PredictCall
  | predict (taskType : String) (payloadSize : ℤ) (metadata : Dict String PyValue) (now : Instant)
  | predictScores (candidates : List (TaskCandidate × Instant))

inductive Response
  | prediction (result : PredictionResult)
  | ranking (tasks : List ScoredTask)
  deriving DecidableEq, Repr

namespace PredictCall

/-- The feature dictionaries that the estimator is given. -/
def features (extractor : FeatureExtractor) :
    PredictCall → Except PyException (List FeatureDict)
  | .predict taskType payloadSize metadata now =>
    .ok [legacyExtractFeatures taskType payloadSize metadata now]
  | .predictScores candidates => candidates.mapM fun c => extractor.extract c.1 {} c.2

/-- How often the call reads the version of the estimator. -/
def versionReads : PredictCall → ℕ
  | .predict .. => 1
  | .predictScores candidates => candidates.length

/-- The answer from the results of the estimator and the versions read. -/
def respond (results : List (ℚ × ℚ)) (version : ℕ → String) (modelType : ModelType) :
    PredictCall → Response
  | .predict .. =>
    .prediction
      { estimatedMs := (results.headD (0, 0)).1
        confidence := (results.headD (0, 0)).2
        modelVersion := version 0
        modelType := modelType }
  | .predictScores candidates =>
    .ranking (scoredTasks (candidates.map Prod.fst) (results.map Prod.fst) version modelType)

/-- The whole call on the estimator `e`: the estimator afterwards, and what is returned or raised. -/
def run (call : PredictCall) (extractor : FeatureExtractor) (e : Estimator) :
    Estimator × Except PyException Response :=
  match call with
  | .predict taskType payloadSize metadata now =>
    let (e', result) := e.predict (legacyExtractFeatures taskType payloadSize metadata now)
    (e', result.map fun scored =>
      call.respond [scored] (fun _ => e'.version) e'.modelType)
  | .predictScores [] => (e, .ok (.ranking []))
  | .predictScores (c :: candidates) =>
    match (c :: candidates).mapM fun c => extractor.extract c.1 {} c.2 with
    | .error exc => (e, .error exc)
    | .ok allFeatures =>
      let (e', batchResults) := e.predictBatch allFeatures
      (e', batchResults.map fun results => call.respond results (fun _ => e'.version) e'.modelType)

end PredictCall

end Chronoq.Ranker
