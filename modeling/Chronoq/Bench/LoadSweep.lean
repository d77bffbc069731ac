import Chronoq.Bench.Sweep

/-! # `jct_vs_load.py`: the experiment

`run_experiment` sweeps every seed, turns the rows of the seeds into one column for each load and takes
medians.

`MeasuredAt` is what a run at a load measures. Of the runs of a sweep only those of one scheduler at two
loads, or of two schedulers at one load, can be compared. -/

namespace Chronoq.Bench
open Foundations Ranker

set_option autoImplicit false

/-! ## The random baseline -/

/-- `random.Random(seed)` and its `choice` from `n + 1` elements. -/
structure PyRandom (ρ : Type) where
  seed : ℤ → ρ
  choice : ρ → (n : ℕ) → Fin (n + 1) × ρ

def RandomScheduler {ρ : Type} (random : PyRandom ρ) : BaseScheduler ρ where
  name := "random"
  select
    | _, [] => .error (.raised "IndexError")
    | state, job :: waiting =>
      let drawn := random.choice state waiting.length
      .ok ((job :: waiting).get drawn.1, drawn.2)

theorem random_selects {ρ : Type} (random : PyRandom ρ) : (RandomScheduler random).Selects := by
  intro state waiting hne
  cases waiting with
  | nil => exact absurd rfl hne
  | cons job waiting => exact ⟨_, List.get_mem _ _, _, rfl⟩

theorem srpt_selects : SRPTOracleScheduler.Selects := sjf_selects

/-! ## One seed -/

/-- What the run of a seed meets outside: the trace of its loader, the training of its ranker, and the
clock when records are made and when features are extracted. -/
structure SeedEnv where
  load : ℕ → Except PyException (List TraceJob)
  ranker : RankerEnv
  text : PyValue → String
  recordClock : ℕ → Instant
  extractClock : ℕ → Instant

/-- A job of the training part. -/
def TraceJob.toJob (tj : TraceJob) : Job where
  jobId := tj.jobId
  taskType := tj.taskType
  payloadSize := tj.payloadSize
  trueMs := tj.trueMs
  arrivalMs := tj.arrivalMs

section Seeds
variable {ρ : Type} (random : PyRandom ρ)

def contenders (seed : ℤ) (ranker : TaskRanker) (clock : ℕ → Instant) (stats : TypeStats) :
    List Contender :=
  [⟨_, FCFSScheduler, ()⟩, ⟨_, SJFOracleScheduler, ()⟩, ⟨_, SRPTOracleScheduler, ()⟩,
    ⟨_, RandomScheduler random, random.seed seed⟩, ⟨_, PriorityFCFSScheduler, ()⟩,
    ⟨_, (rankedScheduler ranker clock stats).toScheduler, (ranker.estimator, 0)⟩]

def emptyMetrics (cs : List Contender) : Metrics := ⟨cs.map Contender.name, fun _ _ => []⟩

def runOneSeed (env : SeedEnv) (fuel nTrain nEval : ℕ) (loadPoints : List ℚ) (seed : ℤ) :
    Ended Metrics :=
  (Ended.ofExcept (env.load (nTrain + nEval))).andThen fun allTrace =>
    if allTrace.length < nTrain + nEval then Ended.raised (.raised "ValueError")
    else
      let evalTrace := (allTrace.drop nTrain).take nEval
      let trainingJobs := (allTrace.take nTrain).map TraceJob.toJob
      (Ended.ofExcept (trainRanker env.ranker env.text env.recordClock trainingJobs)).andThen
        fun ranker =>
          let cs := contenders random seed ranker env.extractClock (computeTypeStats trainingJobs)
          Workload.runLoads ⟨fuel, evalTrace, mean (evalTrace.map TraceJob.trueMs)⟩ loadPoints cs
            (emptyMetrics cs)

def runSeeds (fuel nTrain nEval : ℕ) (loadPoints : List ℚ) : List (ℤ × SeedEnv) → Ended (List Metrics)
  | [] => .ok []
  | (seed, env) :: seeds =>
    (runOneSeed random env fuel nTrain nEval loadPoints seed).andThen fun metrics =>
      (runSeeds fuel nTrain nEval loadPoints seeds).andThen fun rest => .ok (metrics :: rest)

/-! ## The table -/

/-- `for load_idx, v in enumerate(values): cols[load_idx].append(v)` -/
def appendValues : List (List ℚ) → List ℚ → Except PyException (List (List ℚ))
  | cols, [] => .ok cols
  | [], _ :: _ => .error (.raised "IndexError")
  | col :: cols, v :: values => (appendValues cols values).map fun rest => (col ++ [v]) :: rest

/-- `{sched: {metric: [[per_seed_value, ...], ...]}}`, by its two keys. -/
abbrev Table := String × Metric → List (List ℚ)

/-- The two inner loops of `_stack_seeds`, for one pair of keys. -/
def stackCell (metrics : Metrics) (table : Table) (cell : String × Metric) : Except PyException Table :=
  if cell.1 ∈ metrics.names then
    (appendValues (table cell) (metrics.row cell.1 cell.2)).map fun cols =>
      Function.update table cell cols
  else .error (.raised "KeyError")

/-- The pairs of keys in the order of the loops. -/
def cellsOf (names : List String) : List (String × Metric) :=
  names.flatMap fun name => [(name, .meanJct), (name, .p99Jct), (name, .holCount)]

def stackSeeds (perSeed : List Metrics) (names : List String) (loadPoints : List ℚ) :
    Except PyException Table :=
  perSeed.foldlM (fun table metrics => (cellsOf names).foldlM (stackCell metrics) table)
    fun _ => loadPoints.map fun _ => []

structure LoadSweep where
  seeds : List ℤ
  nTrainingJobs : ℕ
  nEvalJobs : ℕ
  loadPoints : List ℚ
  names : List String
  stacked : Table

/-- `_median_flat` -/
def LoadSweep.medians (sweep : LoadSweep) (cell : String × Metric) : List ℚ :=
  (sweep.stacked cell).map fun col => roundTwo (median col)

def runExperiment (fuel nTrain nEval : ℕ) (loadPoints : List ℚ) (seeds : List (ℤ × SeedEnv)) :
    Ended LoadSweep :=
  (runSeeds random fuel nTrain nEval loadPoints seeds).andThen fun perSeed =>
    match perSeed.head? with
    | none => Ended.raised (.raised "IndexError")
    | some first =>
      (Ended.ofExcept (stackSeeds perSeed first.names loadPoints)).andThen fun stacked =>
        .ok ⟨seeds.map Prod.fst, nTrain, nEval, loadPoints, first.names, stacked⟩

end Seeds

/-! ## What a run measures -/

theorem roundTwo_mono {x y : ℚ} (h : x ≤ y) : roundTwo x ≤ roundTwo y := by
  have hround : roundHalfEven (x * 100) ≤ roundHalfEven (y * 100) :=
    roundHalfEven_mono (by linarith)
  exact div_le_div_of_nonneg_right (Int.cast_le.mpr hround) (by norm_num)

/-- `values` is what a run of the scheduler at the load measures, from some state of it. -/
def MeasuredAt {σ : Type} (scheduler : BaseScheduler σ) (w : Workload) (load : ℚ)
    (values : Metric → ℚ) : Prop :=
  ∃ state jobs completed p99, makeJobs w.evalTrace w.meanTrueMs load = .ok jobs ∧
    scheduler.simulator.Completes state jobs completed ∧
    p99Jct (completed.map Job.jctMs) = .ok p99 ∧ values = measured (completed.map Job.jctMs) p99

section Measured
variable {w : Workload} {load load' : ℚ} {values values' : Metric → ℚ}

theorem exists_p99Jct (times : List ℚ) : ∃ p99, p99Jct times = .ok p99 := by
  by_cases hnil : times = []
  · exact ⟨0, by rw [p99Jct, percentileJct, if_pos hnil]⟩
  · obtain ⟨hi, hp99⟩ := percentileJct_eq_ok hnil (show (99 : ℚ) ≤ 100 by norm_num)
    exact ⟨_, hp99⟩

theorem Simulator.Completes.unique {σ : Type} {sim : Simulator σ} {state : σ}
    {jobs completed completed' : List Job} (h : sim.Completes state jobs completed) (h' : sim.Completes state jobs completed') :
    completed = completed' := by
  have hrun := h _ (Nat.lt_succ_self _)
  rw [h' _ (Nat.lt_succ_self _)] at hrun
  cases hrun
  rfl

/-- Schedulers that take the same jobs complete the same way. -/
theorem Simulator.Completes.congr {σ : Type} {scheduler scheduler' : BaseScheduler σ} {n : ℕ}
    {hn : 1 ≤ n} {state : σ} {jobs completed : List Job}
    (hselect : ∀ state waiting, (∀ job ∈ waiting, job ∈ jobs) →
      scheduler.select state waiting = scheduler'.select state waiting)
    (harrival : scheduler.onArrival = scheduler'.onArrival)
    (h : Simulator.Completes ⟨scheduler, n, hn⟩ state jobs completed) :
    Simulator.Completes ⟨scheduler', n, hn⟩ state jobs completed := by
  intro fuel hfuel
  have hcongr := run_congr hselect harrival n hn state fuel
  rw [h fuel hfuel] at hcongr
  unfold Simulator.run at hcongr ⊢
  cases hended : (Simulator.initial ⟨scheduler', n, hn⟩ state jobs).runFor scheduler' fuel with
  | none =>
    rw [hended] at hcongr
    cases hcongr
  | some ended =>
    rw [hended] at hcongr
    cases ended with
    | error exc => cases hcongr
    | ok s =>
      cases hcongr
      rfl

/-- The jobs of the trace at a fixed distance. -/
def Workload.jobsAt (w : Workload) (gap : ℚ) : List Job :=
  w.evalTrace.zipIdx.map (TraceJob.spaced gap)

theorem trueMs_pos_of_jobsAt (htrue : ∀ tj ∈ w.evalTrace, 0 < tj.trueMs) (gap : ℚ) :
    ∀ job ∈ w.jobsAt gap, 0 < job.trueMs :=
  List.forall_mem_map.mpr fun tj htj => htrue tj.1 (List.fst_mem_of_mem_zipIdx htj)

section Contending
variable {σ : Type} {scheduler : BaseScheduler σ} {I : σ → Prop} {state : σ}

theorem runOne_ok (hfuel : 6 * w.evalTrace.length + 2 < w.fuel)
    (htrue : ∀ tj ∈ w.evalTrace, 0 < tj.trueMs) (hload : load ≠ 0)
    (hselects : scheduler.SelectsAmong I (w.jobsAt (w.meanTrueMs / load))) (hstate : I state) :
    ∃ values state', w.runOne load ⟨σ, scheduler, state⟩ = .ok (values, ⟨σ, scheduler, state'⟩) ∧
      I state' ∧ MeasuredAt scheduler w load values := by
  have hjobs : makeJobs w.evalTrace w.meanTrueMs load = .ok (w.jobsAt (w.meanTrueMs / load)) :=
    if_neg hload
  obtain ⟨ended, -, -, hended, hrun, hran⟩ := Simulator.exists_ran_among scheduler.simulator state
    hselects hstate (trueMs_pos_of_jobsAt htrue _)
  have hlength : (w.jobsAt (w.meanTrueMs / load)).length = w.evalTrace.length := by
    rw [Workload.jobsAt, List.length_map, List.length_zipIdx]
  have hsimulate : Contender.simulate ⟨σ, scheduler, state⟩ w.fuel (w.jobsAt (w.meanTrueMs / load)) =
      .ok (ended.completed, ⟨σ, scheduler, ended.schedulerState⟩) := by
    have hfor := hrun w.fuel (by rw [hlength]; exact hfuel)
    unfold Contender.simulate
    dsimp only
    rw [hfor]
    rfl
  obtain ⟨p99, hp99⟩ := exists_p99Jct (ended.completed.map Job.jctMs)
  refine ⟨_, ended.schedulerState, ?_, hended, state, _, _, p99, hjobs, hran.completes, hp99, rfl⟩
  rw [Workload.runOne, hjobs]
  show (Contender.simulate _ _ _).andThen _ = _
  rw [hsimulate]
  show (Ended.ofExcept (measure _)).andThen _ = _
  rw [measure, hp99]
  rfl

/-- A sweep of one scheduler measures it at every load. -/
theorem exists_swept (state : σ) (hfuel : 6 * w.evalTrace.length + 2 < w.fuel)
    (htrue : ∀ tj ∈ w.evalTrace, 0 < tj.trueMs) {loads : List ℚ} (hloads : ∀ load ∈ loads, load ≠ 0)
    (hselects : ∀ gap, scheduler.SelectsAmong I (w.jobsAt gap)) (hstate : I state) :
    ∃ valuess, Workload.Swept w loads ⟨σ, scheduler, state⟩ valuess ∧
      List.Forall₂ (MeasuredAt scheduler w) loads valuess := by
  induction loads generalizing state with
  | nil => exact ⟨[], .nil _, .nil⟩
  | cons load loads ih =>
    obtain ⟨hload, hloads⟩ := List.forall_mem_cons.mp hloads
    obtain ⟨values, state', hrun, hstate', hmeasured⟩ :=
      runOne_ok hfuel htrue hload (hselects _) hstate
    obtain ⟨valuess, hswept, hall⟩ := ih state' hloads hstate'
    exact ⟨values :: valuess, .cons hrun hswept, .cons hmeasured hall⟩

end Contending

/-- The run behind the values. -/
theorem MeasuredAt.exists_completes {σ : Type} {scheduler : BaseScheduler σ}
    (h : MeasuredAt scheduler w load values) (hload : load ≠ 0) :
    ∃ state completed p99,
      scheduler.simulator.Completes state (w.jobsAt (w.meanTrueMs / load)) completed ∧
      p99Jct (completed.map Job.jctMs) = .ok p99 ∧ values = measured (completed.map Job.jctMs) p99 := by
  obtain ⟨state, jobs, completed, p99, hjobs, hcompletes, hp99, hvalues⟩ := h
  cases (if_neg hload).symm.trans hjobs
  exact ⟨state, completed, p99, hcompletes, hp99, hvalues⟩

theorem MeasuredAt.fcfs_le (hmean : 0 ≤ w.meanTrueMs) (htrue : ∀ tj ∈ w.evalTrace, 0 < tj.trueMs)
    (hload : 0 < load) (hle : load ≤ load') (h : MeasuredAt FCFSScheduler w load values)
    (h' : MeasuredAt FCFSScheduler w load' values') :
    ∀ key ≠ Metric.holCount, values key ≤ values' key := by
  have hload' : 0 < load' := hload.trans_le hle
  obtain ⟨state, done, p99, hran, hp99, rfl⟩ := h.exists_completes hload.ne'
  obtain ⟨state', done', p99', hran', hp99', rfl⟩ := h'.exists_completes hload'.ne'
  obtain ⟨completed, completed', l, l', hcompletes, hcompletes', hperm, hperm', hforall, -⟩ :=
    exists_noFaster (le_refl 1) (le_refl 1) le_rfl (div_nonneg hmean hload'.le)
      (div_le_div_of_nonneg_left hmean hload hle) htrue
  obtain rfl := hran.unique hcompletes
  obtain rfl := hran'.unique hcompletes'
  obtain ⟨v, v', hv, hv', hvv⟩ :=
    percentileJct_le_of_noFaster hperm hperm' hforall (show (99 : ℚ) ≤ 100 by norm_num)
  cases hp99.symm.trans hv
  cases hp99'.symm.trans hv'
  intro key hkey
  cases key with
  | meanJct => exact roundTwo_mono (meanJct_le_of_noFaster hperm hperm' hforall)
  | p99Jct => exact roundTwo_mono hvv
  | holCount => exact absurd rfl hkey

theorem MeasuredAt.sjf_le (htrue : ∀ tj ∈ w.evalTrace, 0 < tj.trueMs) (hload : load ≠ 0)
    (h : MeasuredAt SJFOracleScheduler w load values) (h' : MeasuredAt FCFSScheduler w load values') :
    values .meanJct ≤ values' .meanJct := by
  obtain ⟨state, done, p99, hran, -, rfl⟩ := h.exists_completes hload
  obtain ⟨state', done', p99', hran', -, rfl⟩ := h'.exists_completes hload
  obtain ⟨ended, -, -, hsjf⟩ := Simulator.exists_ran ⟨SJFOracleScheduler, 1, le_rfl⟩ () sjf_selects
    (trueMs_pos_of_jobsAt htrue (w.meanTrueMs / load))
  obtain ⟨completed, calls, hfcfs, hserved⟩ := Simulator.exists_ran_fcfs 1 le_rfl
    (trueMs_pos_of_jobsAt htrue (w.meanTrueMs / load))
  obtain rfl := hran.unique hsjf.completes
  obtain rfl := hran'.unique hfcfs.completes
  have hnear := meanJct_le_fcfs_of_near le_rfl rfl hsjf hfcfs hserved fun before c hcalled => by
    obtain ⟨waiting, k, hperm, hmem, hleast⟩ := leastOfPrefix_of_called hcalled
    exact ⟨waiting, k, hperm, hmem, fun job hjob =>
      (hleast job hjob).trans (le_add_of_nonneg_right le_rfl)⟩
  rw [zero_mul, zero_div, add_zero] at hnear
  exact roundTwo_mono hnear

theorem MeasuredAt.congr {σ : Type} {scheduler scheduler' : BaseScheduler σ}
    (h : MeasuredAt scheduler w load values) (hload : load ≠ 0)
    (hselect : ∀ state waiting,
      (∀ job ∈ waiting, job ∈ w.jobsAt (w.meanTrueMs / load)) →
      scheduler.select state waiting = scheduler'.select state waiting)
    (harrival : scheduler.onArrival = scheduler'.onArrival) : MeasuredAt scheduler' w load values := by
  obtain ⟨state, completed, p99, hran, hp99, hvalues⟩ := h.exists_completes hload
  exact ⟨state, _, completed, p99, if_neg hload, hran.congr hselect harrival, hp99, hvalues⟩

/-- Two runs from the same state measure the same. -/
theorem MeasuredAt.unique {scheduler : BaseScheduler Unit} (h : MeasuredAt scheduler w load values)
    (h' : MeasuredAt scheduler w load values') : values = values' := by
  obtain ⟨state, jobs, completed, p99, hjobs, hcompletes, hp99, rfl⟩ := h
  obtain ⟨state', jobs', completed', p99', hjobs', hcompletes', hp99', rfl⟩ := h'
  cases hjobs.symm.trans hjobs'
  obtain rfl := hcompletes.unique hcompletes'
  cases hp99.symm.trans hp99'
  rfl

/-- The durations are all that either of the two looks at. -/
theorem MeasuredAt.srpt_eq (hload : load ≠ 0) (h : MeasuredAt SRPTOracleScheduler w load values)
    (h' : MeasuredAt SJFOracleScheduler w load values') : values = values' := by
  have hsjf : MeasuredAt SJFOracleScheduler w load values := h.congr hload (fun _ _ _ => rfl) rfl
  exact hsjf.unique h'

theorem MeasuredAt.priority_eq (hload : load ≠ 0)
    (hsame : ∀ a ∈ w.evalTrace, ∀ b ∈ w.evalTrace, a.priority = b.priority)
    (h : MeasuredAt PriorityFCFSScheduler w load values) (h' : MeasuredAt FCFSScheduler w load values') :
    values = values' := by
  have hjobs : ∀ a ∈ w.jobsAt (w.meanTrueMs / load), ∀ b ∈ w.jobsAt (w.meanTrueMs / load),
      a.priority = b.priority :=
    List.forall_mem_map.mpr fun a ha => List.forall_mem_map.mpr fun b hb =>
      hsame a.1 (List.fst_mem_of_mem_zipIdx ha) b.1 (List.fst_mem_of_mem_zipIdx hb)
  have hfcfs : MeasuredAt FCFSScheduler w load values :=
    h.congr hload (fun state _ hwaiting => priority_select_eq hjobs hwaiting state) rfl
  exact hfcfs.unique h'

end Measured

end Chronoq.Bench
