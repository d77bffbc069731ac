import Chronoq.Bench.LambdaRankRun
import Chronoq.Foundations.Batches
import Chronoq.Ranker.FaultFree

/-! # `jct_vs_load.py`: the ranker is trained on a first part of the trace

`_train_ranker` saves its records past `record`, in groups of `_GROUP_SIZE`, and retrains once. So which
estimator it trains depends on the number of jobs alone (`choice_trainingRecords`).

`rankedScheduler` is the scheduler of such a ranker: it raises on no list of waiting jobs whose payload
sizes fit single precision, whatever the estimator (`rankedScheduler_scores`). -/

namespace Chronoq.Bench
open Foundations Ranker

set_option autoImplicit false

/-! ## Statistics by task type -/

def durationsOf (jobs : List Job) (taskType : String) : List ℚ :=
  (jobs.filter fun job => job.taskType = taskType).map Job.trueMs

/-- `{t: f(durs) for t, durs in type_durations.items()}` -/
def byTaskType {α : Type} (f : List ℚ → α) (jobs : List Job) : Dict String α :=
  (jobs.map Job.taskType).dedup.foldl
    (fun stats taskType => stats.insert taskType (f (durationsOf jobs taskType))) ∅

structure TypeStats where
  means : Dict String ℚ
  p95s : Dict String ℚ
  counts : Dict String ℤ

def computeTypeStats (jobs : List Job) : TypeStats where
  means := byTaskType mean jobs
  p95s := byTaskType (percentile 95) jobs
  counts := byTaskType (fun durations => durations.length) jobs

/-! ## Training -/

/-- `_GROUP_SIZE` -/
def groupSize : ℕ := 25

def trainGroup (batch : ℕ) : String := "train_" ++ toString batch

def statsMetadata (stats : TypeStats) (taskType : String) : Dict String PyValue :=
  ((Finmap.singleton "recent_mean_ms_this_type"
    (PyValue.float ((stats.means.lookup taskType).getD 0))).insert "recent_p95_ms_this_type"
    (.float ((stats.p95s.lookup taskType).getD 0))).insert "recent_count_this_type"
    (.float (binary64.round ((stats.counts.lookup taskType).getD 0 : ℤ)))

/-- The record of the `x.2`-th job; `clock` is the time when it is made. -/
def trainingRecord (stats : TypeStats) (clock : ℕ → Instant) (x : Job × ℕ) : TaskRecord where
  taskType := x.1.taskType
  payloadSize := x.1.payloadSize
  actualMs := x.1.trueMs
  metadata := statsMetadata stats x.1.taskType
  recordedAt := clock x.2
  groupId := some (trainGroup (x.2 / groupSize))

def trainingRecords (clock : ℕ → Instant) (jobs : List Job) : List TaskRecord :=
  jobs.zipIdx.map (trainingRecord (computeTypeStats jobs) clock)

def trainConfig (jobs : List Job) (minGroups : ℤ) : RankerConfig where
  coldStartThreshold := 50
  retrainEveryN := jobs.length + 1
  minGroups := minGroups

/-- `_train_ranker` -/
def trainRanker (env : RankerEnv) (text : PyValue → String) (clock : ℕ → Instant) (jobs : List Job)
    (minGroups : ℤ := 5) : Except PyException TaskRanker :=
  let ranker := TaskRanker.fresh (trainConfig jobs minGroups) (defaultExtractor text)
    (trainingRecords clock jobs)
  (ranker.retrain env).2.map fun _ => (ranker.retrain env).1

/-! ## What is trained -/

section Groups
variable {clock : ℕ → Instant} {jobs : List Job}

theorem trainGroup_injective : Function.Injective trainGroup := by
  intro b b' h
  have hchars := congrArg String.toList h
  rw [trainGroup, trainGroup, String.toList_append, String.toList_append] at hchars
  have hdigits := List.append_cancel_left hchars
  have hrepr : ∀ n : ℕ, (toString n).toList = Nat.toDigits 10 n := fun n => Nat.toList_repr
  rw [hrepr, hrepr] at hdigits
  rw [← Nat.ofDigitChars_ten_toDigits (n := b), hdigits, Nat.ofDigitChars_ten_toDigits]

theorem groupCount_trainingRecords (b : ℕ) :
    groupCount (trainingRecords clock jobs) (trainGroup b) =
      jobs.zipIdx.countP fun x => x.2 / groupSize = b := by
  rw [groupCount, trainingRecords, List.countP_map]
  apply List.countP_congr
  intro x _
  have hgroup : groupOf (trainingRecord (computeTypeStats jobs) clock x) =
      trainGroup (x.2 / groupSize) := rfl
  simp [hgroup, trainGroup_injective.eq_iff]

/-- The valid groups are the batches of at least two. -/
theorem validGroupIds_trainingRecords : (validGroupIds (trainingRecords clock jobs)).length =
    (jobs.length + 23) / groupSize := by
  have hperm : (validGroupIds (trainingRecords clock jobs)).Perm
      ((List.range ((jobs.length + 23) / groupSize)).map trainGroup) := by
    rw [List.perm_ext_iff_of_nodup (validGroupIds_nodup _)
      (List.nodup_range.map trainGroup_injective)]
    intro gid
    rw [mem_validGroupIds, List.mem_map]
    constructor
    · intro htwo
      obtain ⟨record, hmem, hgid⟩ := List.countP_pos_iff.mp (lt_of_lt_of_le (by omega) htwo)
      obtain ⟨x, -, rfl⟩ := List.mem_map.mp hmem
      obtain rfl : trainGroup (x.2 / groupSize) = gid := of_decide_eq_true hgid
      rw [groupCount_trainingRecords] at htwo
      refine ⟨x.2 / groupSize, List.mem_range.mpr ?_, rfl⟩
      exact (le_countP_batch_iff (by decide) (by decide) jobs _).mp htwo
    · rintro ⟨b, hb, rfl⟩
      rw [groupCount_trainingRecords]
      exact (le_countP_batch_iff (by decide) (by decide) jobs b).mpr (List.mem_range.mp hb)
  rw [hperm.length_eq, List.length_map, List.length_range]

theorem length_trainingRecords : (trainingRecords clock jobs).length = jobs.length := by
  rw [trainingRecords, List.length_map, List.length_zipIdx]

/-- There is nothing but floats in the metadata of a training record. -/
theorem statsMetadata_float {stats : TypeStats} {taskType key : String} {v : PyValue}
    (h : (statsMetadata stats taskType).lookup key = some v) : ∃ x, v = .float x := by
  rw [statsMetadata] at h
  by_cases hcount : key = "recent_count_this_type"
  · rw [hcount, Finmap.lookup_insert] at h
    exact ⟨_, (Option.some.inj h).symm⟩
  · rw [Finmap.lookup_insert_of_ne _ hcount] at h
    by_cases hp95 : key = "recent_p95_ms_this_type"
    · rw [hp95, Finmap.lookup_insert] at h
      exact ⟨_, (Option.some.inj h).symm⟩
    · rw [Finmap.lookup_insert_of_ne _ hp95] at h
      by_cases hmean : key = "recent_mean_ms_this_type"
      · rw [hmean, Finmap.lookup_singleton_eq] at h
        exact ⟨_, (Option.some.inj h).symm⟩
      · rw [Finmap.lookup_eq_none.mpr (by rw [Finmap.mem_singleton]; exact hmean)] at h
        cases h

/-- The jobs can be told to an estimator. -/
structure Fitting (jobs : List Job) : Prop where
  payloadSize : ∀ job ∈ jobs, FitsSingle (floatOfInt job.payloadSize)
  length : jobs.length < 2 ^ 53

theorem ordinary_trainingRecords (clock : ℕ → Instant)
    (hsizes : ∀ job ∈ jobs, FitsSingle (floatOfInt job.payloadSize)) :
    ∀ record ∈ trainingRecords clock jobs, Ordinary record := by
  refine List.forall_mem_map.mpr fun x hx => ?_
  have hsize := hsizes x.1 (List.fst_mem_of_mem_zipIdx hx)
  have hy : ∃ y, floatOfInt x.1.payloadSize = .ok y := hsize.imp fun _ h => h.1
  refine ⟨⟨floatOfInt_ok_iff.mp hy, fun key _ n hn => ?_⟩, hsize, ?_⟩
  · obtain ⟨z, hz⟩ := statsMetadata_float hn
    cases hz
  · have hmissing : (statsMetadata (computeTypeStats jobs) x.1.taskType).lookup "queue_depth" =
        none := by
      rw [statsMetadata, Finmap.lookup_insert_of_ne _ (by decide),
        Finmap.lookup_insert_of_ne _ (by decide), Finmap.lookup_eq_none, Finmap.mem_singleton]
      decide
    show FitsSingle (((statsMetadata (computeTypeStats jobs) x.1.taskType).lookup
      "queue_depth").getD (.int 0)).toFloat
    rw [hmissing]
    exact ⟨_, floatOfInt_small (n := 0) (by decide), isSingle_intCast (n := 0) (by decide)⟩

end Groups

/-- What `n` training jobs lead to. -/
def modelOf (n : ℕ) (minGroups : ℤ) : ModelType :=
  if n < 50 then .heuristic
  else if groupSize * (minGroups - 1) + 2 ≤ n then .lambdarank
  else .gradientBoosting

theorem choice_trainingRecords (clock : ℕ → Instant) (jobs : List Job) (minGroups : ℤ) :
    choice (trainConfig jobs minGroups) (trainingRecords clock jobs) =
      some (modelOf jobs.length minGroups) := by
  have hcold : (jobs.length : ℤ) < (trainConfig jobs minGroups).coldStartThreshold ↔
      jobs.length < 50 := by
    show (jobs.length : ℤ) < 50 ↔ jobs.length < 50
    omega
  have hgroups : (trainConfig jobs minGroups).minGroups ≤ ((jobs.length + 23) / groupSize : ℕ) ↔
      groupSize * (minGroups - 1) + 2 ≤ (jobs.length : ℤ) := by
    show minGroups ≤ ((jobs.length + 23) / 25 : ℕ) ↔ 25 * (minGroups - 1) + 2 ≤ (jobs.length : ℤ)
    omega
  rw [choice, modelOf, length_trainingRecords, validGroupIds_trainingRecords]
  simp only [hcold, hgroups]
  by_cases h : jobs.length < 50
  · rw [if_pos h, if_pos h]
  · rw [if_neg h, if_neg h]
    by_cases hmany : groupSize * (minGroups - 1) + 2 ≤ (jobs.length : ℤ)
    · rw [if_pos hmany, if_pos hmany]
    · rw [if_neg hmany, if_neg hmany]
      rfl

/-! ## The scheduler of a trained ranker -/

/-- The state is the estimator and how often the clock has been read. -/
def rankedScheduler (ranker : TaskRanker) (clock : ℕ → Instant) (stats : TypeStats) :
    LambdaRankScheduler (Estimator × ℕ) where
  extract s candidate ctx :=
    (ranker.extractor.extract candidate ctx (clock s.2)).map fun features => (features, (s.1, s.2 + 1))
  predictBatch s allFeatures :=
    (s.1.predictBatch allFeatures).2.map fun results =>
      (results, ((s.1.predictBatch allFeatures).1, s.2))
  typeMeans := stats.means
  typeP95s := stats.p95s
  typeCounts := stats.counts

section Answers
variable {features : List FeatureDict}

/-- The numbers that an estimator reads of a feature dictionary. -/
structure Offered (fdict : FeatureDict) : Prop where
  readable : Ranker.Readable fdict
  payloadSize : FitsSingle (floatAt fdict "payload_size")
  hourOfDay : FitsSingle (floatAt fdict "hour_of_day")
  queueDepth : FitsSingle (floatAt fdict "queue_depth")

/-- The codes of the task types are numbers that sklearn takes. -/
def Coded (e : Estimator) : Prop :=
  match e with
  | .gradient g => g.labelEncoder.length < 2 ^ 53
  | _ => True

/-- Such an estimator answers a batch. -/
theorem predictBatch_ok {e : Estimator} (hcoded : Coded e) (h : ∀ fdict ∈ features, Offered fdict) :
    ∃ results, (e.predictBatch features).2 = .ok results ∧ results.length = features.length := by
  cases e with
  | heuristic estimator => exact ⟨_, rfl, List.length_map _⟩
  | gradient g =>
    obtain ⟨results, hresults⟩ := exists_mapM_ok (f := g.predict) fun fdict hmem => by
      obtain ⟨-, hsize, hhour, hdepth⟩ := h fdict hmem
      refine gradient_predict_ok_iff.mpr fun _ _ => ⟨hsize, hhour, hdepth, ?_⟩
      refine isSingle_intCast (n := (List.idxOf _ _ : ℕ)) ?_
      rw [Int.natAbs_natCast]
      exact List.idxOf_le_length.trans_lt hcoded
    exact ⟨results, hresults, length_of_mapM_ok hresults⟩
  | lambdarank l =>
    show ∃ results, (l.predictBatch features).2 = .ok results ∧ _
    unfold LambdaRankEstimator.predictBatch
    split
    · exact ⟨_, rfl, rfl⟩
    · split
      · exact ⟨_, rfl, List.length_replicate⟩
      · next model _ =>
        obtain ⟨x, hx⟩ : ∃ x, (l.encoder.extend features).rows features = .ok x :=
          exists_mapM_ok fun fdict hmem => Encoder.exists_row_ok_iff.mpr (h fdict hmem).readable
        have hmatrix : (l.encoder.buildMatrix features false).2 = .ok x := hx
        refine ⟨_, congrArg (Except.map _) hmatrix, ?_⟩
        rw [List.length_map, model.predict_length, length_of_mapM_ok hx]

theorem coded_predictBatch {e : Estimator} (hcoded : Coded e) (features : List FeatureDict) :
    Coded (e.predictBatch features).1 := by
  cases e with
  | heuristic h => exact trivial
  | gradient g => exact hcoded
  | lambdarank l => exact trivial

/-- What `DefaultExtractor` returns for a candidate of the scheduler. -/
theorem offered_defaultExtract {text : PyValue → String} {candidate : TaskCandidate}
    {ctx : QueueContext} {now : Instant} {fdict : FeatureDict}
    (h : defaultExtract text candidate ctx now = .ok fdict)
    (hsize : FitsSingle (asFloat (candidate.features.lookup "payload_size")))
    (hdepth : FitsSingle (floatOfInt ctx.queueDepth)) : Offered fdict := by
  have hzero : FitsSingle (.ok (.finite 0)) := ⟨_, rfl, isSingle_intCast (n := 0) (by decide)⟩
  have hhour : FitsSingle (floatOfInt (hourOf now)) := by
    refine ⟨_, floatOfInt_hourOf now, isSingle_intCast ?_⟩
    rw [hourOf]
    omega
  have hmap : ∀ {number : Except PyException ExtFloat} {v : FeatureValue}, FitsSingle number →
      number.map floatValue = .ok v → FitsSingle v.asFloat := by
    intro number v hfits hv
    obtain ⟨x, hx, rfl⟩ := exists_of_map_ok hv
    obtain ⟨y, hy, hsingle⟩ := hfits
    cases hx.symm.trans hy
    exact ⟨x, rfl, hsingle⟩
  refine ⟨readable_defaultExtract h, ?_, ?_, ?_⟩
  · refine floatAt_dictDisplay_of hzero h ?_
    simp only [List.forall_mem_cons, List.not_mem_nil, false_implies, implies_true, and_true]
    refine ⟨?_, ?_, fun _ v hv => hmap hsize hv, ?_, ?_, ?_, ?_, ?_, ?_, ?_, ?_, ?_, ?_, ?_, ?_⟩ <;>
      (intro heq; exact absurd heq (by decide))
  · refine floatAt_dictDisplay_of hzero h ?_
    simp only [List.forall_mem_cons, List.not_mem_nil, false_implies, implies_true, and_true]
    refine ⟨?_, ?_, ?_, ?_, ?_, fun _ v hv => hmap hhour hv, ?_, ?_, ?_, ?_, ?_, ?_, ?_, ?_, ?_⟩ <;>
      (intro heq; exact absurd heq (by decide))
  · refine floatAt_dictDisplay_of hzero h ?_
    simp only [List.forall_mem_cons, List.not_mem_nil, false_implies, implies_true, and_true]
    refine ⟨?_, ?_, ?_, ?_, ?_, ?_, ?_, fun _ v hv => hmap hdepth hv, ?_, ?_, ?_, ?_, ?_, ?_, ?_⟩ <;>
      (intro heq; exact absurd heq (by decide))

end Answers

/-! ## A batch of waiting jobs -/

section Scores
variable {ranker : TaskRanker} {text : PyValue → String} {clock : ℕ → Instant} {stats : TypeStats}
  {jobs waiting : List Job}

/-- One pass of the loop. -/
theorem extract_ok (clock : ℕ → Instant) (hextractor : ranker.extractor = defaultExtractor text)
    (hcounts : ∀ taskType, InDoubleRange ((stats.counts.lookup taskType).getD 0))
    (hlength : waiting.length < 2 ^ 53) {job : Job} (hjob : FitsSingle (floatOfInt job.payloadSize))
    (s : Estimator × ℕ) :
    ∃ cand fdict, LambdaRankScheduler.candidate job = .ok cand ∧
      (rankedScheduler ranker clock stats).extract s cand
        ((rankedScheduler ranker clock stats).context waiting job) = .ok (fdict, (s.1, s.2 + 1)) ∧
      Offered fdict := by
  have hzero : InDoubleRange 0 := inDoubleRange_small (by decide)
  have hwaiting : (waiting.length : ℤ).natAbs < 2 ^ 53 := by rwa [Int.natAbs_natCast]
  have hsame : InDoubleRange (waiting.countP fun other => other.taskType = job.taskType : ℕ) := by
    refine inDoubleRange_small ?_
    rw [Int.natAbs_natCast]
    exact List.countP_le_length.trans_lt hlength
  obtain ⟨x, hx, hsingle⟩ := hjob
  obtain ⟨cand, hcand, hfeatures⟩ : ∃ cand, LambdaRankScheduler.candidate job = .ok cand ∧
      cand.features = Finmap.singleton "payload_size" (.float x) :=
    ⟨⟨job.jobId, job.taskType, Finmap.singleton "payload_size" (.float x)⟩,
      by rw [LambdaRankScheduler.candidate, hx]; rfl, rfl⟩
  have hrange : CandidateInRange cand ((rankedScheduler ranker clock stats).context waiting job) := by
    refine ⟨fun key _ n hn => ?_, inDoubleRange_small hwaiting, hsame, hzero, hzero, hcounts _⟩
    rw [hfeatures] at hn
    by_cases hkey : key = "payload_size"
    · rw [hkey, Finmap.lookup_singleton_eq] at hn
      cases hn
    · rw [Finmap.lookup_eq_none.mpr (by rw [Finmap.mem_singleton]; exact hkey)] at hn
      cases hn
  obtain ⟨fdict, hfdict⟩ := defaultExtract_ok text hrange (clock s.2)
  have hextract : (rankedScheduler ranker clock stats).extract s cand
      ((rankedScheduler ranker clock stats).context waiting job) =
        (defaultExtract text cand ((rankedScheduler ranker clock stats).context waiting job)
          (clock s.2)).map fun features => (features, (s.1, s.2 + 1)) := by
    simp only [rankedScheduler, hextractor]
    rfl
  rw [hfdict] at hextract
  refine ⟨cand, fdict, hcand, hextract, offered_defaultExtract hfdict ?_ ?_⟩
  · rw [hfeatures, Finmap.lookup_singleton_eq]
    exact ⟨x, rfl, hsingle⟩
  · exact ⟨_, floatOfInt_small hwaiting, isSingle_intCast hwaiting⟩

theorem extractAll_ok (clock : ℕ → Instant) (hextractor : ranker.extractor = defaultExtractor text)
    (hcounts : ∀ taskType, InDoubleRange ((stats.counts.lookup taskType).getD 0))
    (hlength : waiting.length < 2 ^ 53) {batch : List Job}
    (hbatch : ∀ job ∈ batch, FitsSingle (floatOfInt job.payloadSize)) (s : Estimator × ℕ) :
    ∃ allFeatures ticks, (rankedScheduler ranker clock stats).extractAll waiting s batch =
        .ok (allFeatures, (s.1, ticks)) ∧ allFeatures.length = batch.length ∧
      ∀ fdict ∈ allFeatures, Offered fdict := by
  induction batch generalizing s with
  | nil => exact ⟨[], s.2, rfl, rfl, by simp⟩
  | cons job batch ih =>
    obtain ⟨hjob, hrest⟩ := List.forall_mem_cons.mp hbatch
    obtain ⟨cand, fdict, hcand, hextract, hoffered⟩ := extract_ok clock hextractor hcounts hlength
      hjob s
    obtain ⟨allFeatures, ticks, hall, hlen, hevery⟩ := ih hrest (s.1, s.2 + 1)
    refine ⟨fdict :: allFeatures, ticks, ?_, ?_, List.forall_mem_cons.mpr ⟨hoffered, hevery⟩⟩
    · rw [LambdaRankScheduler.extractAll, hcand]
      simp only [bind, Except.bind, hextract, hall]
      rfl
    · rw [List.length_cons, List.length_cons, hlen]

/-- The scheduler scores any of the jobs that wait, and stays one that does. -/
theorem rankedScheduler_scores (clock : ℕ → Instant) (hextractor : ranker.extractor = defaultExtractor text)
    (hcounts : ∀ taskType, InDoubleRange ((stats.counts.lookup taskType).getD 0))
    (hfit : Fitting jobs) :
    (rankedScheduler ranker clock stats).Scores (fun s => Coded s.1) jobs := by
  intro s waiting hcoded hsome
  have hlength : waiting.length < 2 ^ 53 := by
    have hle := hsome.length_le
    rw [List.length_map, List.length_map] at hle
    exact hle.trans_lt hfit.length
  have hsizes : ∀ job ∈ waiting, FitsSingle (floatOfInt job.payloadSize) := by
    intro job hjob
    obtain ⟨given, hgiven, heq⟩ := List.mem_map.mp (hsome.subset (List.mem_map_of_mem hjob))
    have hsame : given.asGiven.payloadSize = job.asGiven.payloadSize := congrArg Job.payloadSize heq
    rw [show job.payloadSize = given.payloadSize from hsame.symm]
    exact hfit.payloadSize given hgiven
  obtain ⟨allFeatures, ticks, hall, hlen, hoffered⟩ :=
    extractAll_ok clock hextractor hcounts hlength hsizes s
  obtain ⟨results, hresults, hlen'⟩ := predictBatch_ok hcoded hoffered
  refine ⟨results, ((s.1.predictBatch allFeatures).1, ticks), ?_, hlen'.trans hlen,
    coded_predictBatch hcoded allFeatures⟩
  rw [LambdaRankScheduler.score, hall]
  show (s.1.predictBatch allFeatures).2.map _ = _
  rw [hresults]
  rfl

end Scores

/-! ## The trained ranker -/

/-- What is counted of a type are some of the jobs. -/
theorem counts_inRange {jobs : List Job} (hlength : jobs.length < 2 ^ 53) (taskType : String) :
    InDoubleRange (((computeTypeStats jobs).counts.lookup taskType).getD 0) := by
  have hvalue : ∀ (types : List String) (count : ℤ),
      (types.foldl (fun stats t => stats.insert t ((durationsOf jobs t).length : ℤ))
        (∅ : Dict String ℤ)).lookup taskType = some count → InDoubleRange count := by
    intro types
    induction types using List.reverseRecOn with
    | nil => simp
    | append_singleton types t ih =>
      intro count hcount
      rw [List.foldl_append, List.foldl_cons, List.foldl_nil] at hcount
      by_cases heq : taskType = t
      · rw [heq, Finmap.lookup_insert] at hcount
        rw [← Option.some.inj hcount]
        refine inDoubleRange_small ?_
        rw [Int.natAbs_natCast, durationsOf, List.length_map]
        exact (List.length_filter_le _ _).trans_lt hlength
      · rw [Finmap.lookup_insert_of_ne _ heq] at hcount
        exact ih count hcount
  cases hlookup : (computeTypeStats jobs).counts.lookup taskType with
  | none => exact inDoubleRange_small (by decide)
  | some count => exact hvalue _ count hlookup

/-- A fallback has one code for each task type of its records. -/
theorem coded_of_trained {config : RankerConfig} {extractor : FeatureExtractor} {env : RankerEnv}
    {records : List TaskRecord} {e : Estimator} {metrics : FitMetrics}
    (h : trained config extractor env records = .ok (e, metrics)) (hlength : records.length < 2 ^ 53) :
    Coded e := by
  unfold trained at h
  split at h
  · unfold fitOrDegrade at h
    split at h
    · cases h
      trivial
    · split at h
      · obtain ⟨gradient, hgradient, heq⟩ := exists_of_map_ok h
        cases heq
        show gradient.1.labelEncoder.length < 2 ^ 53
        rw [(gradient_fit_spec hgradient).2.1, GradientEstimator.labelClasses, List.length_insertionSort]
        refine lt_of_le_of_lt ?_ hlength
        exact (List.dedup_sublist _).length_le.trans_eq (List.length_map _)
      · cases h
  · unfold fitHeuristic at h
    split at h
    · cases h
    · cases h
      trivial

theorem exists_trainRanker {env : RankerEnv} (htrains : env.Trains) (hgetAll : env.faults.getAll = none)
    (hstores : env.faults.setReference = none) (text : PyValue → String) (clock : ℕ → Instant)
    {jobs : List Job} (hfit : Fitting jobs) (minGroups : ℤ) :
    ∃ ranker, trainRanker env text clock jobs minGroups = .ok ranker ∧
      ranker.estimator.modelType = modelOf jobs.length minGroups ∧
      ranker.extractor = defaultExtractor text ∧ Coded ranker.estimator := by
  have hsound := TaskRanker.sound_fresh (trainConfig jobs minGroups) (defaultExtractor_proper text)
    (trainingRecords clock jobs)
  have hordinary := ordinary_trainingRecords clock hfit.payloadSize
  have hlength : (trainingRecords clock jobs).length < 2 ^ 53 := by
    rw [length_trainingRecords]
    exact hfit.length
  obtain ⟨⟨result, hresult⟩, htype⟩ := TaskRanker.retrain_of_choice hsound htrains hgetAll hstores
    (choice_trainingRecords clock jobs minGroups) (trains_default hordinary hlength _)
    (columns_default (fun r hr => (hordinary r hr).inRange) rfl)
  have hsame := TaskRanker.retrain_sameSetup (TaskRanker.fresh (trainConfig jobs minGroups)
    (defaultExtractor text) (trainingRecords clock jobs)) env
  have hheuristic : (TaskRanker.fresh (trainConfig jobs minGroups) (defaultExtractor text)
      (trainingRecords clock jobs)).estimator.modelType ≠ .lambdarank := by
    show ModelType.heuristic ≠ .lambdarank
    decide
  refine ⟨_, ?_, htype, hsame.extractor, ?_⟩
  · rw [trainRanker, hresult]
    rfl
  · obtain ⟨estimator, metrics, htrained, hinstalled, -⟩ | ⟨exc, -, -, -, hraised⟩ :=
      TaskRanker.retrain_result hsound htrains hgetAll hheuristic
    · rw [hinstalled]
      exact coded_of_trained htrained hlength
    · rw [hresult] at hraised
      cases hraised

/-- Four full groups, and two jobs in the fifth. -/
def resizes : List Job :=
  List.replicate 102 { jobId := "a", taskType := "resize", payloadSize := 1, trueMs := 2, arrivalMs := 0 }

theorem fitting_resizes : Fitting resizes where
  payloadSize job hjob := by
    rw [List.eq_of_mem_replicate hjob]
    exact ⟨_, floatOfInt_small (n := 1) (by decide), isSingle_intCast (n := 1) (by decide)⟩
  length := by
    rw [resizes, List.length_replicate]
    decide

end Chronoq.Bench
