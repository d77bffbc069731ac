import Chronoq.Celery.Producer
import Chronoq.Foundations.CompletionOrder
import Chronoq.Ranker.Estimators

/-! # `demo.py`: the mean completion time of a scored batch

The demo runs nothing: `_compute_jcts` adds up the durations in the order of arrival (`_run_fifo`) or in
stable order of the scores (`_run_active`), and `main` compares the means.

* `active_gain`: what the scores gain over arrival order, and what they lose against the shortest first,
  pair by pair.
* `active_order_is_sent`: the order is the one in which a scheduler sends the same jobs that are submitted
  to it one after another, if the ranker does not read how deep the queue is. -/

namespace Chronoq.Celery
open Foundations Ranker

set_option autoImplicit false

structure EvalJob where
  id : ℕ
  taskType : String
  payloadSize : ℤ
  trueMs : ℚ
  deriving DecidableEq, Repr

/-- The loop of `_compute_jcts`, from `t` on. -/
def jctsFrom (jobs : List EvalJob) (t : ℚ) : List ℕ → Except PyException (List ℚ)
  | [] => .ok []
  | idx :: order =>
    match jobs[idx]? with
    | none => .error (.raised "IndexError")
    | some job => (jctsFrom jobs (t + job.trueMs) order).map fun jcts => (t + job.trueMs) :: jcts

def computeJcts (jobs : List EvalJob) (order : List ℕ) : Except PyException (List ℚ) :=
  jctsFrom jobs 0 order

def runFifo (evalJobs : List EvalJob) : Except PyException (List ℚ) :=
  computeJcts evalJobs (List.range evalJobs.length)

variable {Score Ranker : Type}

/-- `[scheduler._score(str(job["id"]), ...) for job in eval_jobs]` -/
def scoresOf [Zero Score] (predict : Ranker → TaskCandidate → QueueContext → Except PyException Score)
    (scheduler : LearnedScheduler Score ProducerJob Ranker) :
    List EvalJob → Except PyException (List Score)
  | [] => .ok []
  | job :: jobs =>
    match scheduler.score predict (toString job.id) job.taskType job.payloadSize with
    | .error exc => .error exc
    | .ok score => (scoresOf predict scheduler jobs).map fun scores => score :: scores

/-- `sorted(range(len(eval_jobs)), key=lambda i: scores[i])` -/
def scoreOrder [LinearOrder Score] (scores : List Score) : List ℕ :=
  (sortBy Prod.fst scores.zipIdx).map Prod.snd

def runActive [LinearOrder Score] [Zero Score]
    (predict : Ranker → TaskCandidate → QueueContext → Except PyException Score) (ranker : Ranker)
    (typeMeans : List (String × ℚ)) (evalJobs : List EvalJob) : Except PyException (List ℚ) :=
  match scoresOf predict (.new .active ranker ((TypeStatsTracker.new 100).seed typeMeans)) evalJobs with
  | .error exc => .error exc
  | .ok scores => computeJcts evalJobs (scoreOrder scores)

/-! ## Orders of indices -/

theorem jctsFrom_eq_ok {jobs : List EvalJob} {order : List ℕ} {served : List EvalJob} {t : ℚ}
    (h : List.Forall₂ (fun idx job => jobs[idx]? = some job) order served) :
    jctsFrom jobs t order = .ok (completionTimes EvalJob.trueMs t served) := by
  induction h generalizing t with
  | nil => rfl
  | cons hjob _ ih =>
    rw [jctsFrom, hjob, completionTimes]
    dsimp only
    rw [ih]
    rfl

/-- Jobs named by their indices, in the order of a list in which each stands beside its index. -/
theorem forall₂_getElem? {α β : Type*} {l : List α} {L : List β} {index : β → ℕ} {value : β → α}
    (h : ∀ x ∈ L, l[index x]? = some (value x)) :
    List.Forall₂ (fun i a => l[i]? = some a) (L.map index) (L.map value) := by
  rw [List.forall₂_map_left_iff, List.forall₂_map_right_iff]
  exact List.forall₂_same.mpr h

theorem runFifo_eq_ok (jobs : List EvalJob) :
    runFifo jobs = .ok (completionTimes EvalJob.trueMs 0 jobs) := by
  apply jctsFrom_eq_ok
  have hjobs : ∀ x ∈ jobs.zipIdx, jobs[x.2]? = some x.1 :=
    fun x hx => List.mem_zipIdx_iff_getElem?.mp hx
  have hidx := forall₂_getElem? hjobs
  rw [List.zipIdx_map_snd, List.zipIdx_map_fst, ← List.range_eq_range'] at hidx
  exact hidx

/-- In the order of the scores the jobs are those of the sorted list of scored jobs. -/
theorem forall₂_scoreOrder {Job : Type*} [LinearOrder Score] {scores : List Score} {jobs : List Job}
    (hlength : scores.length = jobs.length) :
    List.Forall₂ (fun idx job => jobs[idx]? = some job) (scoreOrder scores)
      ((sortBy Prod.fst (scores.zip jobs)).map Prod.snd) := by
  have hscores : (scores.zip jobs).zipIdx.map (fun x => (x.1.1, x.2)) = scores.zipIdx := by
    have hfst : (scores.zip jobs).map Prod.fst = scores := List.map_fst_zip hlength.le
    conv_rhs => rw [← hfst, List.zipIdx_map]
    rfl
  have hjobs : ∀ x ∈ sortBy (fun x : (Score × Job) × ℕ => x.1.1) (scores.zip jobs).zipIdx,
      jobs[x.2]? = some x.1.2 := by
    intro x hx
    have hmem := (sortBy_perm (fun x : (Score × Job) × ℕ => x.1.1) _).subset hx
    have hzip := List.mem_zipIdx_iff_getElem?.mp hmem
    rw [List.getElem?_zip_eq_some] at hzip
    exact hzip.2
  have horder : scoreOrder scores =
      (sortBy (fun x : (Score × Job) × ℕ => x.1.1) (scores.zip jobs).zipIdx).map Prod.snd := by
    have hmap := map_sortBy (Prod.fst : Score × ℕ → Score) (fun x : (Score × Job) × ℕ => (x.1.1, x.2))
      (scores.zip jobs).zipIdx
    rw [hscores] at hmap
    rw [scoreOrder, ← hmap, List.map_map]
    rfl
  have hserved : (sortBy Prod.fst (scores.zip jobs)).map Prod.snd =
      (sortBy (fun x : (Score × Job) × ℕ => x.1.1) (scores.zip jobs).zipIdx).map fun x => x.1.2 := by
    have hmap := map_sortBy (Prod.fst : Score × Job → Score) Prod.fst (scores.zip jobs).zipIdx
    rw [List.zipIdx_map_fst] at hmap
    rw [← hmap, List.map_map]
    rfl
  rw [horder, hserved]
  exact forall₂_getElem? hjobs

theorem exists_served_of_perm {jobs : List EvalJob} {order : List ℕ}
    (h : order.Perm (List.range jobs.length)) : ∃ served, served.Perm jobs ∧
      List.Forall₂ (fun idx job => jobs[idx]? = some job) order served := by
  have hjobs : ∀ x ∈ jobs.zipIdx, jobs[x.2]? = some x.1 :=
    fun x hx => List.mem_zipIdx_iff_getElem?.mp hx
  have hidx := forall₂_getElem? hjobs
  rw [List.zipIdx_map_snd, List.zipIdx_map_fst, ← List.range_eq_range'] at hidx
  obtain ⟨served, hserved, hperm⟩ := List.perm_comp_forall₂ h hidx
  exact ⟨served, hperm, hserved⟩

/-! ## What the scores gain -/

theorem scoresOf_length [Zero Score]
    {predict : Ranker → TaskCandidate → QueueContext → Except PyException Score}
    {scheduler : LearnedScheduler Score ProducerJob Ranker} {jobs : List EvalJob} {scores : List Score}
    (h : scoresOf predict scheduler jobs = .ok scores) : scores.length = jobs.length := by
  induction jobs generalizing scores with
  | nil =>
    cases h
    rfl
  | cons job jobs ih =>
    rw [scoresOf] at h
    cases hscore : scheduler.score predict (toString job.id) job.taskType job.payloadSize with
    | error exc =>
      rw [hscore] at h
      cases h
    | ok score =>
      rw [hscore] at h
      cases hrest : scoresOf predict scheduler jobs with
      | error exc =>
        rw [hrest] at h
        cases h
      | ok rest =>
        rw [hrest] at h
        cases h
        rw [List.length_cons, List.length_cons, ih hrest]

variable [LinearOrder Score]

/-- What the pairs of jobs gain that the scores turn around. -/
def gain (scored : List (Score × EvalJob)) : ℚ :=
  ((pairsOf scored).map fun p => if p.1.1 ≤ p.2.1 then 0 else p.1.2.trueMs - p.2.2.trueMs).sum

/-- What the pairs of jobs cost that the scores put the longer one first of. -/
def regret (scored : List (Score × EvalJob)) : ℚ :=
  ((pairsOf scored).map fun p => if p.1.1 ≤ p.2.1 then max 0 (p.1.2.trueMs - p.2.2.trueMs)
    else max 0 (p.2.2.trueMs - p.1.2.trueMs)).sum

/-- The scores gain over arrival order the difference in duration of every pair that they turn around, and
lose against the shortest first, which no order is better than, that of every pair they have wrong. -/
theorem active_gain [Zero Score]
    (predict : Ranker → TaskCandidate → QueueContext → Except PyException Score) (ranker : Ranker)
    (typeMeans : List (String × ℚ)) (jobs : List EvalJob) {scores : List Score}
    (hscores : scoresOf predict (.new .active ranker ((TypeStatsTracker.new 100).seed typeMeans)) jobs =
      .ok scores) :
    ∃ fifo active least, runFifo jobs = .ok fifo ∧
      runActive predict ranker typeMeans jobs = .ok active ∧
      computeJcts jobs (scoreOrder (jobs.map EvalJob.trueMs)) = .ok least ∧
      fifo.sum - active.sum = gain (scores.zip jobs) ∧
      active.sum - least.sum = regret (scores.zip jobs) ∧
      ∀ order jcts, order.Perm (List.range jobs.length) → computeJcts jobs order = .ok jcts →
        least.sum ≤ jcts.sum := by
  have hlength := scoresOf_length hscores
  have hactive : runActive predict ranker typeMeans jobs =
      .ok (completionTimes EvalJob.trueMs 0 ((sortBy Prod.fst (scores.zip jobs)).map Prod.snd)) := by
    rw [runActive, hscores]
    exact jctsFrom_eq_ok (forall₂_scoreOrder hlength)
  have hleast : computeJcts jobs (scoreOrder (jobs.map EvalJob.trueMs)) =
      .ok (completionTimes EvalJob.trueMs 0 (sortBy EvalJob.trueMs jobs)) := by
    have hlengths : (jobs.map EvalJob.trueMs).length = jobs.length := List.length_map EvalJob.trueMs
    have hserved := forall₂_scoreOrder hlengths
    have hzip : (jobs.map EvalJob.trueMs).zip jobs = jobs.map fun job => (job.trueMs, job) := by
      rw [List.zip_map_left, List.zip_eq_zipWith, List.zipWith_self, List.map_map]
      rfl
    have hmap := map_sortBy (Prod.fst : ℚ × EvalJob → ℚ) (fun job => (job.trueMs, job)) jobs
    have hid : (Prod.snd : ℚ × EvalJob → EvalJob) ∘ (fun job => (job.trueMs, job)) = id := rfl
    rw [hzip, ← hmap, List.map_map, hid, List.map_id] at hserved
    exact jctsFrom_eq_ok hserved
  have hsnd : (scores.zip jobs).map Prod.snd = jobs := List.map_snd_zip hlength.ge
  have htimes := completionTimes_map EvalJob.trueMs (Prod.snd : Score × EvalJob → EvalJob) 0
  refine ⟨_, _, _, runFifo_eq_ok jobs, hactive, hleast, ?_, ?_, ?_⟩
  · have hsub := sum_completionTimes_sub (fun x : Score × EvalJob => x.2.trueMs) Prod.fst 0
      (scores.zip jobs)
    rw [← htimes, ← htimes, hsnd] at hsub
    exact hsub
  · have hsort := sum_completionTimes_sortBy (fun x : Score × EvalJob => x.2.trueMs) Prod.fst 0
      (scores.zip jobs)
    have hmap := map_sortBy EvalJob.trueMs (Prod.snd : Score × EvalJob → EvalJob) (scores.zip jobs)
    rw [hsnd] at hmap
    rw [← htimes, ← htimes, hmap] at hsort
    rw [hsort, add_sub_cancel_left]
    rfl
  · intro order jcts hperm hjcts
    obtain ⟨served, hserved, hforall⟩ := exists_served_of_perm hperm
    cases (jctsFrom_eq_ok hforall).symm.trans hjcts
    exact sum_completionTimes_least EvalJob.trueMs (hserved.trans (sortBy_perm EvalJob.trueMs jobs).symm)
      (pairwise_sortBy EvalJob.trueMs jobs) 0

/-- The shortest job comes last, and of the others the scores take the longer one first. -/
def threeEvalJobs : List EvalJob :=
  [⟨0, "transcode", 2048, 30⟩, ⟨1, "ocr", 512, 40⟩, ⟨2, "resize", 64, 5⟩]

/-- The type of a task as its score. -/
def byKind (_ : Unit) (candidate : TaskCandidate) (_ : QueueContext) : Except PyException ℕ :=
  .ok (if candidate.taskType = "transcode" then 3 else if candidate.taskType = "ocr" then 2 else 1)

theorem active_gain_three : ∃ fifo active least, runFifo threeEvalJobs = .ok fifo ∧
    runActive byKind () [] threeEvalJobs = .ok active ∧
    computeJcts threeEvalJobs (scoreOrder (threeEvalJobs.map EvalJob.trueMs)) = .ok least ∧
    fifo.sum - active.sum = 50 ∧ active.sum - least.sum = 10 := by
  obtain ⟨fifo, active, least, hfifo, hactive, hleast, hgain, hregret, -⟩ :=
    active_gain byKind () [] threeEvalJobs
      (show scoresOf byKind (.new .active () ((TypeStatsTracker.new 100).seed [])) threeEvalJobs =
        .ok [3, 2, 1] by decide +kernel)
  refine ⟨fifo, active, least, hfifo, hactive, hleast, hgain.trans ?_, hregret.trans ?_⟩
  · decide +kernel
  · decide +kernel

/-! ## The order in which a scheduler sends the jobs -/

/-- The job as the producer submits it, with the seed of its duration. -/
def EvalJob.submitted (seed : EvalJob → ℤ) (job : EvalJob) : ProducerJob :=
  ⟨toString job.id, job.taskType, job.payloadSize, seed job⟩

/-- The score does not depend on how many tasks are held, up to `n` of them. -/
def IgnoresDepth (predict : Ranker → TaskCandidate → QueueContext → Except PyException Score) (n : ℕ) :
    Prop :=
  ∀ (ranker : Ranker) (candidate : TaskCandidate) (context : QueueContext) (depth sameType : ℕ),
    depth ≤ n → sameType ≤ n →
    predict ranker candidate { context with queueDepth := depth, queueDepthSameType := sameType } =
      predict ranker candidate { context with queueDepth := 0, queueDepthSameType := 0 }

/-- The default extractor followed by a heuristic estimator, which reads the task type only. -/
def heuristicScore (text : PyValue → String) (now : Instant) (h : HeuristicEstimator)
    (candidate : TaskCandidate) (ctx : QueueContext) : Except PyException ℚ :=
  (defaultExtract text candidate ctx now).map fun features => (h.predictType (taskTypeAt features)).1

theorem heuristicScore_ignoresDepth (text : PyValue → String) (now : Instant) {n : ℕ}
    (hn : n < 2 ^ 53) : IgnoresDepth (heuristicScore text now) n := by
  intro h candidate ctx depth sameType hdepth hsame
  have hnumber : ∀ m : ℕ, m ≤ n → floatOfInt m = .ok (.finite m) := fun m hm =>
    floatOfInt_small (by rw [Int.natAbs_natCast]; omega)
  have hentry : ∀ m : ℕ, m ≤ n → ∃ v w, (floatOfInt m).map floatValue = .ok v ∧
      (floatOfInt 0).map floatValue = .ok w := fun m hm =>
    ⟨_, _, by rw [hnumber m hm]; rfl, by rw [floatOfInt_small (n := 0) (by decide)]; rfl⟩
  have hlookup : (defaultExtract text candidate
        { ctx with queueDepth := depth, queueDepthSameType := sameType } now).map
          (fun fdict => fdict.lookup "task_type") =
      (defaultExtract text candidate { ctx with queueDepth := 0, queueDepthSameType := 0 } now).map
        fun fdict => fdict.lookup "task_type" := by
    refine dictDisplay_lookup_congr ?_
    simp only [List.forall₂_cons, List.Forall₂.nil, true_and, true_or, and_true]
    exact ⟨.inr ⟨by decide, hentry depth hdepth⟩, .inr ⟨by decide, hentry sameType hsame⟩⟩
  have hscore : ∀ context, heuristicScore text now h candidate context =
      ((defaultExtract text candidate context now).map fun fdict => fdict.lookup "task_type").map
        fun value => (h.predictType ((value.map FeatureValue.asText).getD "")).1 := by
    intro context
    unfold heuristicScore
    cases defaultExtract text candidate context now <;> rfl
  rw [hscore, hscore, hlookup]

theorem toString_injective : Function.Injective (toString : ℕ → String) := by
  intro m n h
  have hdigits : Nat.toDigits 10 m = Nat.toDigits 10 n := by
    rw [← Nat.toList_repr, ← Nat.toList_repr]
    exact congrArg String.toList h
  have hm := Nat.ofDigitChars_toDigits (n := m) (b := 10) (by decide) le_rfl
  rw [hdigits, Nat.ofDigitChars_toDigits (by decide) le_rfl] at hm
  exact hm.symm

theorem toString_ne_empty (n : ℕ) : toString n ≠ "" := by
  intro h
  have hdigits : Nat.toDigits 10 n = [] := by
    rw [← Nat.toList_repr]
    exact congrArg String.toList h
  exact Nat.toDigits_ne_nil hdigits

omit [LinearOrder Score] in
theorem scoreAll_submitted [Zero Score] {env : ProducerEnv Score Ranker} {n : ℕ}
    (hdepth : IgnoresDepth env.predict n) (seed : EvalJob → ℤ) {ranker : Ranker}
    {stats : TypeStatsTracker} {jobs : List EvalJob} {scores : List Score}
    (hscores : scoresOf env.predict (.new .active ranker stats) jobs = .ok scores)
    (held : List ProducerJob) (hn : held.length + jobs.length ≤ n) :
    env.scoreAll ranker stats held (jobs.map (EvalJob.submitted seed)) =
      .ok (scores.zip (jobs.map (EvalJob.submitted seed))) := by
  induction jobs generalizing held scores with
  | nil =>
    cases hscores
    rfl
  | cons job jobs ih =>
    have hheld : held.length + (jobs.length + 1) ≤ n := hn
    have hscore : (LearnedScheduler.new .active ranker stats :
        LearnedScheduler Score ProducerJob Ranker).score env.predict (toString job.id) job.taskType
          job.payloadSize = env.scoreJob ranker (job.submitted seed)
        (contextBehind stats held (job.submitted seed).taskType) := by
      have hsame : ∀ size, env.predict ranker ((job.submitted seed).candidate size)
            (contextBehind stats [] job.taskType) =
          env.predict ranker ((job.submitted seed).candidate size)
            (contextBehind stats held job.taskType) := fun size =>
        (hdepth ranker _ (contextBehind stats held job.taskType) _ _ (by omega)
          (List.countP_le_length.trans (by omega))).symm
      exact congrArg (Except.bind (floatOfInt job.payloadSize)) (funext hsame)
    rw [scoresOf, hscore] at hscores
    rw [List.map_cons, ProducerEnv.scoreAll]
    cases hpredict : env.scoreJob ranker (job.submitted seed)
        (contextBehind stats held (job.submitted seed).taskType) with
    | error exc =>
      rw [hpredict] at hscores
      cases hscores
    | ok score =>
      rw [hpredict] at hscores
      cases hrest : scoresOf env.predict (.new .active ranker stats) jobs with
      | error exc =>
        rw [hrest] at hscores
        cases hscores
      | ok rest =>
        rw [hrest] at hscores
        cases hscores
        dsimp only
        rw [ih hrest (held ++ [job.submitted seed]) (by rw [List.length_append, List.length_singleton]; omega)]
        rfl

/-- If the ranker does not read how many tasks are held, the order that the demo adds up is the one in
which the jobs are sent that are submitted to a scheduler one after another. -/
theorem active_order_is_sent [Zero Score] (env : ProducerEnv Score Ranker) (ranker : Ranker)
    (typeMeans : List (String × ℚ)) {jobs : List EvalJob}
    (hdepth : IgnoresDepth env.predict jobs.length) (hnd : (jobs.map EvalJob.id).Nodup)
    (seed : EvalJob → ℤ)
    {scores : List Score}
    (hscores : scoresOf env.predict
      (.new .active ranker ((TypeStatsTracker.new 100).seed typeMeans)) jobs = .ok scores)
    {fuel : ℕ} (hfuel : jobs.length < fuel) :
    ∃ served, List.Forall₂ (fun idx job => jobs[idx]? = some job) (scoreOrder scores) served ∧
      runActive env.predict ranker typeMeans jobs =
        .ok (completionTimes EvalJob.trueMs 0 served) ∧
      Producer.main env .active ranker ((TypeStatsTracker.new 100).seed typeMeans) fuel
          (jobs.map (EvalJob.submitted seed)) =
        some (sendAll env.sendTask [] (served.map (EvalJob.submitted seed))) := by
  have hlength := scoresOf_length hscores
  have hserved := forall₂_scoreOrder hlength
  refine ⟨_, hserved, ?_, ?_⟩
  · rw [runActive, hscores]
    exact jctsFrom_eq_ok hserved
  · rw [main_eq_sends env .active ranker _ ?_ ?_ (by rw [List.length_map]; exact hfuel)]
    · rw [ProducerEnv.sends, scoreAll_submitted hdepth seed hscores [] (by rw [List.length_nil, Nat.zero_add])]
      have hmap := map_sortBy (Prod.fst : Score × ProducerJob → Score)
        (fun x : Score × EvalJob => (x.1, x.2.submitted seed)) (scores.zip jobs)
      have hzip : (scores.zip jobs).map (fun x => (x.1, x.2.submitted seed)) =
          scores.zip (jobs.map (EvalJob.submitted seed)) := by
        rw [List.zip_map_right]
        rfl
      rw [hzip] at hmap
      dsimp only
      rw [← hmap, List.map_map, List.map_map]
      rfl
    · refine List.forall_mem_map.mpr fun job _ => ?_
      exact toString_ne_empty job.id
    · rw [List.map_map]
      exact (List.map_map (f := EvalJob.id) (g := toString)).symm ▸ hnd.map toString_injective

theorem active_order_is_sent_three :
    ∃ served, List.Forall₂ (fun idx job => threeEvalJobs[idx]? = some job) (scoreOrder [3, 2, 1]) served ∧
      Producer.main ⟨byKind, fun _ _ => .ok (), "d"⟩ .active () (.new 100) 4
        (threeEvalJobs.map (EvalJob.submitted fun _ => 7)) =
          some (sendAll (fun _ _ => .ok ()) [] (served.map (EvalJob.submitted fun _ => 7))) := by
  obtain ⟨served, hserved, -, hmain⟩ := active_order_is_sent ⟨byKind, fun _ _ => .ok (), "d"⟩ () []
    (fun _ _ _ _ _ _ _ => rfl) (show (threeEvalJobs.map EvalJob.id).Nodup by decide) (fun _ => 7)
    (show scoresOf byKind (.new .active () ((TypeStatsTracker.new 100).seed [])) threeEvalJobs =
      .ok [3, 2, 1] by decide +kernel)
    (show threeEvalJobs.length < 4 by decide)
  exact ⟨served, hserved, hmain⟩

end Chronoq.Celery
