import Chronoq.Bench.ShortestFirst
import Chronoq.Foundations.NearShortest
import Chronoq.Ranker.Features

/-! # `jct_vs_load.py`: the ranker as a scheduler of the simulator

`LambdaRankScheduler` extracts the features of all waiting jobs, each with a context of its own, scores
them in one batch and takes the first of several least ones. The state of type `σ` is what the extractor
and the estimator read and write besides, such as the clock.

`lambdarank_meanJct_le_fcfs`: how far the scores put jobs in the wrong order is all that matters. -/

namespace Chronoq.Bench
open Foundations Ranker

set_option autoImplicit false

/-- `predict_batch` answers with a score and a confidence for each candidate. -/
structure LambdaRankScheduler (σ : Type) where
  extract : σ → TaskCandidate → QueueContext → Except PyException (FeatureDict × σ)
  predictBatch : σ → List FeatureDict → Except PyException (List (ℚ × ℚ) × σ)
  typeMeans : Dict String ℚ
  typeP95s : Dict String ℚ
  typeCounts : Dict String ℤ

namespace LambdaRankScheduler
variable {σ : Type} (l : LambdaRankScheduler σ)

def candidate (job : Job) : Except PyException TaskCandidate :=
  (floatOfInt job.payloadSize).map fun payloadSize =>
    ⟨job.jobId, job.taskType, Finmap.singleton "payload_size" (.float payloadSize)⟩

def context (waiting : List Job) (job : Job) : QueueContext where
  queueDepth := waiting.length
  queueDepthSameType := waiting.countP fun other => other.taskType = job.taskType
  recentMeanMsThisType := (l.typeMeans.lookup job.taskType).getD 0
  recentP95MsThisType := (l.typeP95s.lookup job.taskType).getD 0
  recentCountThisType := (l.typeCounts.lookup job.taskType).getD 0

/-- The loop of `select` over the jobs. -/
def extractAll (waiting : List Job) : σ → List Job → Except PyException (List FeatureDict × σ)
  | state, [] => .ok ([], state)
  | state, job :: jobs => do
    let cand ← candidate job
    let (features, state) ← l.extract state cand (l.context waiting job)
    let (allFeatures, state) ← extractAll waiting state jobs
    return (features :: allFeatures, state)

def score (state : σ) (waiting : List Job) : Except PyException (List (ℚ × ℚ) × σ) := do
  let (allFeatures, state) ← l.extractAll waiting state waiting
  l.predictBatch state allFeatures

/-- `min(range(len(waiting)), key=lambda i: batch_results[i][0])`, and the job of that index. -/
def best (waiting : List Job) (results : List (ℚ × ℚ)) : Except PyException Job :=
  if results.length < waiting.length then .error (.raised "IndexError")
  else match extractLeast (fun x : (ℚ × ℚ) × Job => x.1.1) (results.zip waiting) with
    | none => .error (.raised "ValueError")
    | some (least, _) => .ok least.2

def selectScored (state : σ) (waiting : List Job) : Except PyException (Job × σ) :=
  match l.score state waiting with
  | .error exc => .error exc
  | .ok (results, state) => (best waiting results).map fun job => (job, state)

/-- A job that waits alone is not scored. -/
def select (state : σ) : List Job → Except PyException (Job × σ)
  | [job] => .ok (job, state)
  | waiting => l.selectScored state waiting

def toScheduler : BaseScheduler σ where
  name := "lambdarank"
  select := l.select

/-! ## What is asked of the scores -/

/-- Whichever of the jobs wait, each gets a score, in every state with the property, and the state that
follows has it. -/
def Scores (I : σ → Prop) (jobs : List Job) : Prop :=
  ∀ state waiting, I state → (waiting.map Job.asGiven).Subperm (jobs.map Job.asGiven) →
    ∃ results state', l.score state waiting = .ok (results, state') ∧
      results.length = waiting.length ∧ I state'

/-- Of two waiting jobs the one that is scored no higher is at most `ε` longer. -/
def Within (ε : ℚ) (jobs : List Job) : Prop :=
  ∀ state waiting results state', (∀ job ∈ waiting, job ∈ jobs) →
    l.score state waiting = .ok (results, state') →
    ∀ x ∈ results.zip waiting, ∀ y ∈ results.zip waiting, x.1.1 ≤ y.1.1 →
      x.2.trueMs ≤ y.2.trueMs + ε

variable {l} {waiting : List Job} {results : List (ℚ × ℚ)}

theorem best_spec {job : Job} (h : best waiting results = .ok job) :
    waiting.length ≤ results.length ∧ ∃ result, (result, job) ∈ results.zip waiting ∧
      ∀ y ∈ results.zip waiting, result.1 ≤ y.1.1 := by
  unfold best at h
  split at h
  · cases h
  · next hlength =>
    split at h
    · cases h
    · next least rest hleast =>
      cases h
      exact ⟨not_lt.mp hlength, least.1, extractLeast_mem _ hleast, extractLeast_le _ hleast⟩

theorem exists_best (hlength : results.length = waiting.length) (hne : waiting ≠ []) :
    ∃ job ∈ waiting, best waiting results = .ok job := by
  unfold best
  rw [if_neg hlength.not_lt]
  cases hleast : extractLeast (fun x : (ℚ × ℚ) × Job => x.1.1) (results.zip waiting) with
  | none =>
    have hnil := (extractLeast_eq_none_iff _).mp hleast
    have hzip := congrArg List.length hnil
    rw [List.length_zip, hlength, Nat.min_self, List.length_nil] at hzip
    exact absurd (List.length_eq_zero_iff.mp hzip) hne
  | some least =>
    have hmem := extractLeast_mem _ hleast
    exact ⟨least.1.2, (List.of_mem_zip hmem).2, rfl⟩

theorem select_cases (state : σ) (waiting : List Job) :
    (∃ job, waiting = [job] ∧ l.select state waiting = .ok (job, state)) ∨
      l.select state waiting = l.selectScored state waiting := by
  cases waiting with
  | nil => exact .inr rfl
  | cons job rest =>
    cases rest with
    | nil => exact .inl ⟨job, rfl, rfl⟩
    | cons other rest => exact .inr rfl

theorem Scores.selects {I : σ → Prop} {jobs : List Job} (h : l.Scores I jobs) :
    l.toScheduler.SelectsAmong I jobs where
  selects {state waiting} hstate hne hsome := by
    show ∃ chosen ∈ waiting, ∃ state', l.select state waiting = .ok (chosen, state') ∧ I state'
    rcases select_cases (l := l) state waiting with ⟨job, rfl, hselect⟩ | hselect
    · exact ⟨job, List.mem_singleton_self job, state, hselect, hstate⟩
    · obtain ⟨results, state', hscore, hlength, hnext⟩ := h state waiting hstate hsome
      obtain ⟨job, hmem, hbest⟩ := exists_best hlength hne
      refine ⟨job, hmem, state', ?_, hnext⟩
      rw [hselect, selectScored, hscore]
      dsimp only
      rw [hbest]
      rfl
  onArrival hstate := hstate

theorem exists_mem_zip {job : Job} (hlength : waiting.length ≤ results.length) (hmem : job ∈ waiting) :
    ∃ result, (result, job) ∈ results.zip waiting := by
  have hsnd : (results.zip waiting).map Prod.snd = waiting := List.map_snd_zip hlength
  rw [← hsnd] at hmem
  obtain ⟨x, hx, rfl⟩ := List.mem_map.mp hmem
  exact ⟨x.1, hx⟩

/-- The job taken is at most `ε` longer than any job that waits. -/
theorem Within.select_le {ε : ℚ} {jobs : List Job} (h : l.Within ε jobs) (hε : 0 ≤ ε)
    {state state' : σ} {chosen : Job} (hwaiting : ∀ job ∈ waiting, job ∈ jobs)
    (hselect : l.select state waiting = .ok (chosen, state')) :
    ∀ job ∈ waiting, chosen.trueMs ≤ job.trueMs + ε := by
  intro job hmem
  rcases select_cases (l := l) state waiting with ⟨only, rfl, honly⟩ | hscored
  · cases honly.symm.trans hselect
    rw [List.mem_singleton.mp hmem]
    exact le_add_of_nonneg_right hε
  · rw [hscored, selectScored] at hselect
    cases hscore : l.score state waiting with
    | error exc =>
      rw [hscore] at hselect
      cases hselect
    | ok answer =>
      obtain ⟨results, state''⟩ := answer
      rw [hscore] at hselect
      dsimp only at hselect
      obtain ⟨best, hbest, heq⟩ := exists_of_map_ok hselect
      cases heq
      obtain ⟨hlength, result, hresult, hleast⟩ := best_spec hbest
      obtain ⟨other, hother⟩ := exists_mem_zip hlength hmem
      exact h state waiting results _ hwaiting hscore _ hresult _ hother (hleast _ hother)

theorem firstOfPrefix_of_called {ε : ℚ} {jobs order before : List Job} {c : Selection}
    (h : l.Within ε jobs) (hε : 0 ≤ ε) (horder : order ⊆ jobs)
    (hcalled : Simulation.Called l.toScheduler order before c) :
    FirstOfPrefix (fun x y => x.trueMs ≤ y.trueMs + ε) order before c.chosen := by
  obtain ⟨⟨seen, hseen, hperm⟩, hmem, state, state', hselect⟩ := hcalled
  have hwaiting : ∀ job ∈ c.waiting, job ∈ jobs := fun job hjob =>
    horder (hseen.subset (hperm.subset (List.mem_append_left _ hjob)))
  refine ⟨c.waiting, seen.length, ?_, hmem, h.select_le hε hwaiting hselect⟩
  rw [← List.prefix_iff_eq_take.mp hseen]
  exact hperm

end LambdaRankScheduler

/-! ## Against FCFS -/

theorem meanJct_le_add {times times' : List ℚ} {c : ℚ} (hlength : times.length = times'.length)
    (hc : 0 ≤ c) (hsum : times.sum ≤ times'.sum + c * times.length) :
    meanJct times ≤ meanJct times' + c := by
  unfold meanJct
  by_cases hnil : times = []
  · have hnil' : times' = [] := List.length_eq_zero_iff.mp (by rw [← hlength, hnil, List.length_nil])
    rw [if_pos hnil, if_pos hnil', zero_add]
    exact hc
  · have hnil' : times' ≠ [] := fun h =>
      hnil (List.length_eq_zero_iff.mp (by rw [hlength, h, List.length_nil]))
    have hpos : (0 : ℚ) < times.length := Nat.cast_pos.mpr (List.length_pos_iff.mpr hnil)
    rw [if_neg hnil, if_neg hnil', ← hlength, div_add' _ _ _ hpos.ne']
    exact div_le_div_of_nonneg_right hsum hpos.le

/-- A scheduler that always takes a job at most `ε` longer than any other that has arrived. -/
theorem meanJct_le_fcfs_of_near {σ : Type} {sim : Simulator σ} {state : σ} {ε : ℚ} (hε : 0 ≤ ε)
    {jobs completed completed' : List Job} {calls calls' : List Selection} (hone : sim.nWorkers = 1)
    (hran : sim.Ran state jobs completed calls)
    (hfcfs : Simulator.Ran ⟨FCFSScheduler, 1, le_rfl⟩ () jobs completed' calls')
    (hserved : calls'.map Selection.chosen = Simulator.arrivalOrder jobs)
    (hnear : ∀ before c, Simulation.Called sim.scheduler (Simulator.arrivalOrder jobs) before c →
      FirstOfPrefix (fun x y => x.trueMs ≤ y.trueMs + ε) (Simulator.arrivalOrder jobs) before c.chosen) :
    meanJct (completed.map Job.jctMs) ≤ meanJct (completed'.map Job.jctMs) + ε * jobs.length / 4 := by
  have htasks : (calls'.map Selection.started).map Prod.fst = Simulator.arrivalOrder jobs := by
    rw [List.map_map]
    exact hserved
  have htasks' : (calls.map Selection.started).map Prod.fst = calls.map Selection.chosen := by
    rw [List.map_map]
    rfl
  have hschedule := hran.schedule
  rw [hone] at hschedule
  have hsum := hschedule.sum_finish_le_add hε hfcfs.schedule (by
      rw [htasks, htasks']
      exact hran.served) (by
      rw [htasks]
      exact (Simulator.byArrival_arrivalOrder jobs).imp Job.arrivesAt_mono) (by
      rw [htasks, htasks']
      exact (hran.each.imp fun before c => hnear (before.map Selection.chosen) c).map)
  have hcalls : (calls.map Selection.started).length = jobs.length := by
    rw [List.length_map, ← hran.length_completed, hran.finished.length_eq, List.length_map]
  rw [hcalls] at hsum
  have hlength : (completed.map Job.jctMs).length = jobs.length := by
    rw [List.length_map, hran.length_completed]
  refine meanJct_le_add ?_ ?_ ?_
  · rw [hlength, List.length_map, hfcfs.length_completed]
  · positivity
  · rw [hlength, hran.sum_jctMs, hfcfs.sum_jctMs]
    linarith

/-- Scores that put no two waiting jobs in the wrong order by more than `ε` cost the mean completion time
on one worker at most `ε * n / 4` over FCFS; with no two in the wrong order they cost nothing. -/
theorem lambdarank_meanJct_le_fcfs {σ : Type} (l : LambdaRankScheduler σ) (state : σ) (jobs : List Job)
    {I : σ → Prop} (hscores : l.Scores I jobs) (hstate : I state)
    (htrue : ∀ job ∈ jobs, 0 < job.trueMs) {ε : ℚ} (hε : 0 ≤ ε) (hwithin : l.Within ε jobs) :
    ∃ ranked fcfs, Simulator.Completes ⟨l.toScheduler, 1, le_rfl⟩ state jobs ranked ∧
      Simulator.Completes ⟨FCFSScheduler, 1, le_rfl⟩ () jobs fcfs ∧
      meanJct (ranked.map Job.jctMs) ≤ meanJct (fcfs.map Job.jctMs) + ε * jobs.length / 4 := by
  obtain ⟨ended, -, -, -, -, hranked⟩ :=
    Simulator.exists_ran_among ⟨l.toScheduler, 1, le_rfl⟩ state hscores.selects hstate htrue
  obtain ⟨completed, calls, hfcfs, hserved⟩ := Simulator.exists_ran_fcfs 1 le_rfl htrue
  have horder : Simulator.arrivalOrder jobs ⊆ jobs := (Simulator.arrivalOrder_perm jobs).subset
  exact ⟨_, _, hranked.completes, hfcfs.completes, meanJct_le_fcfs_of_near hε rfl hranked hfcfs hserved
    fun _ _ => LambdaRankScheduler.firstOfPrefix_of_called hwithin hε horder⟩

/-- Candidates are scored by their payload size. -/
def sizeScheduler : LambdaRankScheduler Unit where
  extract state candidate _ :=
    .ok (dictOf [("payload_size", .ofPyValue (fun _ => "")
      ((candidate.features.lookup "payload_size").getD .none))], state)
  predictBatch state allFeatures :=
    (allFeatures.mapM fun features => floatAt features "payload_size").map fun sizes =>
      (sizes.map fun size => (size.toRat, 1), state)
  typeMeans := ∅
  typeP95s := ∅
  typeCounts := ∅

theorem sizeScheduler_score {waiting : List Job}
    (hsmall : ∀ job ∈ waiting, job.payloadSize.natAbs < 2 ^ 53) :
    sizeScheduler.score () waiting = .ok (waiting.map fun job => ((job.payloadSize : ℚ), 1), ()) := by
  have hextract : ∀ jobs : List Job, (∀ job ∈ jobs, job.payloadSize.natAbs < 2 ^ 53) →
      sizeScheduler.extractAll waiting () jobs =
        .ok (jobs.map fun job => dictOf [("payload_size", floatValue (job.payloadSize : ℚ))], ()) := by
    intro jobs hjobs
    induction jobs with
    | nil => rfl
    | cons job jobs ih =>
      obtain ⟨hjob, hrest⟩ := List.forall_mem_cons.mp hjobs
      have hone : sizeScheduler.extractAll waiting () (job :: jobs) =
          (sizeScheduler.extractAll waiting () jobs).map fun all =>
            (dictOf [("payload_size", floatValue (job.payloadSize : ℚ))] :: all.1, all.2) := by
        rw [LambdaRankScheduler.extractAll, LambdaRankScheduler.candidate, floatOfInt_small hjob]
        show (sizeScheduler.extractAll waiting () jobs).bind _ = _
        cases sizeScheduler.extractAll waiting () jobs <;> rfl
      rw [hone, ih hrest]
      rfl
  rw [LambdaRankScheduler.score, hextract waiting hsmall]
  have hsizes : (waiting.map fun job => dictOf [("payload_size", floatValue (job.payloadSize : ℚ))]).mapM
      (fun features => floatAt features "payload_size") =
        .ok (waiting.map fun job => ExtFloat.finite job.payloadSize) := by
    refine mapM_eq_ok_iff.mpr ?_
    rw [List.forall₂_map_left_iff, List.forall₂_map_right_iff, List.forall₂_same]
    exact fun _ _ => rfl
  show ((waiting.map fun job => dictOf [("payload_size", floatValue (job.payloadSize : ℚ))]).mapM
    fun features => floatAt features "payload_size").map _ = _
  rw [hsizes]
  simp only [Except.map, List.map_map]
  rfl

/-- The shorter of the first two jobs has the larger payload. -/
def sizedJobs : List Job :=
  [{ jobId := "a", taskType := "resize", payloadSize := 2, trueMs := 3, arrivalMs := 0 },
    { jobId := "b", taskType := "resize", payloadSize := 3, trueMs := 2, arrivalMs := 0 },
    { jobId := "c", taskType := "scale", payloadSize := 1, trueMs := 1, arrivalMs := 0 }]

theorem lambdarank_meanJct_le_fcfs_sized :
    ∃ ranked fcfs, Simulator.Completes ⟨sizeScheduler.toScheduler, 1, le_rfl⟩ () sizedJobs ranked ∧
      Simulator.Completes ⟨FCFSScheduler, 1, le_rfl⟩ () sizedJobs fcfs ∧
      meanJct (ranked.map Job.jctMs) ≤ meanJct (fcfs.map Job.jctMs) + 1 * 3 / 4 := by
  have hsizes : ∀ job ∈ sizedJobs, job.payloadSize.natAbs < 2 ^ 53 := by decide
  refine lambdarank_meanJct_le_fcfs sizeScheduler () sizedJobs (I := fun _ => True) ?_ trivial (by decide)
    (show (0 : ℚ) ≤ 1 by norm_num) ?_
  · intro state waiting _ hsome
    refine ⟨_, (), sizeScheduler_score fun job hjob => ?_, List.length_map _, trivial⟩
    obtain ⟨given, hgiven, heq⟩ := List.mem_map.mp (hsome.subset (List.mem_map_of_mem hjob))
    have hsame : given.asGiven.payloadSize = job.asGiven.payloadSize := congrArg Job.payloadSize heq
    have hsize := hsizes given hgiven
    rwa [show given.payloadSize = job.payloadSize from hsame] at hsize
  · intro state waiting results state' hwaiting hscore x hx y hy hle
    rw [sizeScheduler_score fun job hjob => hsizes job (hwaiting job hjob)] at hscore
    cases hscore
    -- a job of a smaller payload is at most one longer
    have hnear : ∀ job ∈ sizedJobs, ∀ other ∈ sizedJobs, job.payloadSize ≤ other.payloadSize →
        job.trueMs ≤ other.trueMs + 1 := by decide +kernel
    have hvalue : ∀ {z : (ℚ × ℚ) × Job},
        z ∈ (waiting.map fun job => ((job.payloadSize : ℚ), (1 : ℚ))).zip waiting →
        z.1.1 = z.2.payloadSize ∧ z.2 ∈ waiting := by
      intro z hz
      rw [← List.map_prod_right_eq_zip] at hz
      obtain ⟨job, hmem, rfl⟩ := List.mem_map.mp hz
      exact ⟨rfl, hmem⟩
    obtain ⟨hxvalue, hxmem⟩ := hvalue hx
    obtain ⟨hyvalue, hymem⟩ := hvalue hy
    rw [hxvalue, hyvalue] at hle
    exact hnear _ (hwaiting _ hxmem) _ (hwaiting _ hymem) (Int.cast_le.mp hle)

end Chronoq.Bench
