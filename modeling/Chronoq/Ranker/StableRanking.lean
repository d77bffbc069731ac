import Chronoq.Foundations.Ranking
import Chronoq.Ranker.FitRuns
import Chronoq.Ranker.Predictions

/-! # `predict_scores` with any estimator

`predictScores` is the method with the estimator as a parameter: a `BatchEstimator` has states of any
type and scores of any ordered one, and may raise. `run_predictScores` says that the method on the
estimators of the package is an instance.

An estimator that returns one score for each candidate is all the method needs: the tasks it returns are
the candidates in the order of their stable argsort (`StablyRanked`). -/

namespace Chronoq.Ranker
open Foundations

set_option autoImplicit false

/-! ## The method -/

structure BatchEstimator (σ α : Type) where
  predictBatch : σ → List FeatureDict → σ × Except PyException (List (α × ℚ))
  version : σ → String
  modelType : σ → ModelType

/-- A `ScoredTask` with a score of any type. -/
structure RankedTask (α : Type) where
  taskId : String
  score : α
  rank : ℕ
  modelVersion : String
  modelType : ModelType

section Method
variable {σ α : Type} [LinearOrder α]

/-- `scored.sort(key=lambda pair: pair[1])` and the enumeration of the result. -/
def rankTasks (scored : List (TaskCandidate × α)) (version : String) (modelType : ModelType) :
    List (RankedTask α) :=
  (scored.insertionSort fun a b => a.2 ≤ b.2).mapIdx fun rank pair =>
    { taskId := pair.1.taskId
      score := pair.2
      rank := rank
      modelVersion := version
      modelType := modelType }

/-- `predict_scores`, each candidate with the reading of the clock at its extraction. -/
def predictScores (est : BatchEstimator σ α) (extractor : FeatureExtractor) (s : σ)
    (candidates : List (TaskCandidate × Instant)) :
    σ × Except PyException (List (RankedTask α)) :=
  match candidates with
  | [] => (s, .ok [])
  | c :: candidates =>
    match (c :: candidates).mapM fun c => extractor.extract c.1 {} c.2 with
    | .error exc => (s, .error exc)
    | .ok allFeatures =>
      let (s', batchResults) := est.predictBatch s allFeatures
      (s', batchResults.map fun results =>
        rankTasks ((((c :: candidates).map Prod.fst).zip results).map fun p => (p.1, p.2.1))
          (est.version s') (est.modelType s'))

end Method

/-! ## The estimators of the package -/

def packageEstimator : BatchEstimator Estimator ℚ where
  predictBatch := Estimator.predictBatch
  version := Estimator.version
  modelType := Estimator.modelType

def RankedTask.toScoredTask (task : RankedTask ℚ) : ScoredTask where
  taskId := task.taskId
  score := task.score
  rank := task.rank
  modelVersion := task.modelVersion
  modelType := task.modelType

theorem map_toScoredTask_rankTasks (candidates : List TaskCandidate) (scores : List ℚ)
    (version : String) (modelType : ModelType) :
    (rankTasks (candidates.zip scores) version modelType).map RankedTask.toScoredTask =
      scoredTasks candidates scores (fun _ => version) modelType :=
  List.ext_getElem (by simp [rankTasks, scoredTasks, sortByScore]) fun rank _ _ => by
    simp [rankTasks, scoredTasks, sortByScore, RankedTask.toScoredTask]

theorem run_predictScores (extractor : FeatureExtractor) (e : Estimator)
    (candidates : List (TaskCandidate × Instant)) :
    (PredictCall.predictScores candidates).run extractor e =
      ((predictScores packageEstimator extractor e candidates).1,
        (predictScores packageEstimator extractor e candidates).2.map fun tasks =>
          .ranking (tasks.map RankedTask.toScoredTask)) := by
  match candidates with
  | [] => rfl
  | c :: candidates =>
    rw [PredictCall.run, predictScores]
    cases (c :: candidates).mapM fun c => extractor.extract c.1 {} c.2 with
    | error exc => rfl
    | ok allFeatures =>
      dsimp only [packageEstimator]
      generalize e.predictBatch allFeatures = answered
      obtain ⟨e', exc | results⟩ := answered
      · rfl
      · have hzip : (((c :: candidates).map Prod.fst).zip results).map (fun p => (p.1, p.2.1)) =
            ((c :: candidates).map Prod.fst).zip (results.map Prod.fst) :=
          List.zip_map_right.symm
        simp only [Except.map, PredictCall.respond, hzip, map_toScoredTask_rankTasks]

/-! ## Stable rankings -/

section Ranking
variable {α : Type} [LinearOrder α]

/-- Place `k` of the ranking has the candidate at position `order[k]` of the input. -/
structure StablyRanked (candidates : List TaskCandidate) (scores : List α)
    (tasks : List (RankedTask α)) (order : List ℕ) : Prop where
  perm : order.Perm (List.range candidates.length)
  length : tasks.length = candidates.length
  own : ∀ k i, order[k]? = some i → ∃ (candidate : TaskCandidate) (task : RankedTask α),
    candidates[i]? = some candidate ∧ tasks[k]? = some task ∧ task.taskId = candidate.taskId ∧ scores[i]? = some task.score ∧
    task.rank = k
  nondecreasing : tasks.Pairwise fun a b => a.score ≤ b.score
  stable : order.Pairwise fun i j => scores[i]? = scores[j]? → i < j

theorem map_score_rankTasks (scored : List (TaskCandidate × α)) (version : String)
    (modelType : ModelType) :
    (rankTasks scored version modelType).map RankedTask.score =
      (scored.insertionSort fun a b => a.2 ≤ b.2).map Prod.snd :=
  List.ext_getElem (by simp [rankTasks]) fun rank _ _ => by simp [rankTasks]

theorem stablyRanked_rankTasks {candidates : List TaskCandidate} {scores : List α}
    (h : scores.length = candidates.length) (version : String) (modelType : ModelType) :
    ∃ order, StablyRanked candidates scores
      (rankTasks (candidates.zip scores) version modelType) order := by
  obtain ⟨order, hargsort, hread⟩ :=
    exists_order_of_insertionSort (fun pair : TaskCandidate × α => pair.2) (candidates.zip scores)
  have hscores : (candidates.zip scores).map (fun pair => pair.2) = scores :=
    List.map_snd_zip h.le
  rw [hscores] at hargsort
  refine ⟨order, ?_, ?_, ?_, ?_, ?_⟩
  · rw [← h]
    exact hargsort.perm
  · rw [rankTasks, List.length_mapIdx, List.length_insertionSort, List.length_zip]
    omega
  · intro k i hi
    -- place `k` of the sorted pairs holds the pair at position `i`
    have hplace := congrArg (fun l => l[k]?) hread
    simp only [List.getElem?_map, hi, Option.map_some] at hplace
    obtain ⟨pair, hpair, hzip⟩ := Option.map_eq_some_iff.mp hplace
    obtain ⟨hcandidate, hscore⟩ := List.getElem?_zip_eq_some.mp hzip.symm
    refine ⟨pair.1, ⟨pair.1.taskId, pair.2, k, version, modelType⟩, hcandidate, ?_, rfl, hscore, rfl⟩
    rw [rankTasks, List.getElem?_mapIdx, hpair]
    rfl
  · rw [← List.pairwise_map, map_score_rankTasks, List.pairwise_map]
    exact (pairwise_insertionSort_stable (q := fun _ _ => True)
      (fun a b => le_total a.2 b.2) (fun a b c => le_trans (a := a.2) (b := b.2) (c := c.2))
      (List.pairwise_of_forall fun _ _ => trivial)).imp fun hab => hab.1
  · refine List.Pairwise.imp_of_mem ?_ hargsort.sorted
    intro i j hi _ hij htie
    have hi' : i < scores.length := List.mem_range.mp (hargsort.perm.mem_iff.mp hi)
    rw [List.getElem?_eq_getElem hi'] at hij htie
    rcases hij _ rfl _ htie.symm with hlt | ⟨-, hlt⟩
    · exact absurd hlt (lt_irrefl _)
    · exact hlt

/-- Whatever the estimator, if it returns one score for each candidate the method returns the
candidates stably ranked by their own scores. -/
theorem predictScores_stable {σ : Type} (est : BatchEstimator σ α) (extractor : FeatureExtractor) (s : σ) :
    (predictScores est extractor s []).2 = .ok [] ∧
      ∀ (candidates : List (TaskCandidate × Instant)) (allFeatures : List FeatureDict)
        (results : List (α × ℚ)), candidates ≠ [] →
        candidates.mapM (fun c => extractor.extract c.1 {} c.2) = .ok allFeatures →
        (est.predictBatch s allFeatures).2 = .ok results → results.length = allFeatures.length →
        ∃ tasks order, (predictScores est extractor s candidates).2 = .ok tasks ∧
          StablyRanked (candidates.map Prod.fst) (results.map Prod.fst) tasks order := by
  refine ⟨rfl, ?_⟩
  intro candidates allFeatures results hne hfeatures hresults hone
  obtain ⟨c, candidates, rfl⟩ := List.exists_cons_of_ne_nil hne
  have hlength : (results.map Prod.fst).length = ((c :: candidates).map Prod.fst).length := by
    rw [List.length_map, hone, length_of_mapM_ok hfeatures, List.length_map]
  have hzip : (((c :: candidates).map Prod.fst).zip results).map (fun p => (p.1, p.2.1)) =
      ((c :: candidates).map Prod.fst).zip (results.map Prod.fst) := List.zip_map_right.symm
  obtain ⟨order, hranked⟩ := stablyRanked_rankTasks hlength
    (est.version (est.predictBatch s allFeatures).1) (est.modelType (est.predictBatch s allFeatures).1)
  refine ⟨_, order, ?_, hranked⟩
  rw [predictScores, hfeatures]
  simp only [hresults, Except.map, hzip]

end Ranking

/-! ## Two candidates with one score -/

def constantEstimator : BatchEstimator Unit ℚ where
  predictBatch _ featureDicts := ((), .ok (featureDicts.map fun _ => (1, 1)))
  version _ := "constant-v0"
  modelType _ := .heuristic

theorem predictScores_stable_tied :
    ∃ tasks order, (predictScores constantEstimator plainExtractor ()
        [(⟨"t", "resize", ∅⟩, 0), (⟨"t", "ocr", ∅⟩, 0)]).2 = .ok tasks ∧
      StablyRanked [⟨"t", "resize", ∅⟩, ⟨"t", "ocr", ∅⟩] [1, 1] tasks order :=
  (predictScores_stable constantEstimator plainExtractor ()).2
    [(⟨"t", "resize", ∅⟩, 0), (⟨"t", "ocr", ∅⟩, 0)]
    [plainFeatures "resize" 0 0, plainFeatures "ocr" 0 0] [(1, 1), (1, 1)] (List.cons_ne_nil _ _)
    (mapM_eq_ok_iff.mpr (.cons (extract_plain_candidate ..) (.cons (extract_plain_candidate ..) .nil)))
    rfl rfl

end Chronoq.Ranker
