import Chronoq.Bench.LoadSweep

/-! # `jct_vs_load.py`: what the curves satisfy

What holds of every simulation holds of the rows of a seed, of the columns that the rows are stacked to,
and of the medians of the columns, because rounding and the median keep the order (`roundTwo_mono`,
`median_le`).

* `SeedRows`, `LoadSweep.Curves`: what holds of the rows of a seed and of the columns of all.
* `run_experiment_curves`: the experiment ends, and its columns and medians are such. -/

namespace Chronoq.Bench
open Foundations Ranker

set_option autoImplicit false

/-! ## The rows of a seed -/

def schedulerNames : List String :=
  ["fcfs", "sjf_oracle", "srpt_oracle", "random", "priority_fcfs", "lambdarank"]

/-- What holds between the rows that a seed measures. -/
structure SeedRows (loadPoints : List ℚ) (samePriority : Prop) (row : String → Metric → List ℚ) :
    Prop where
  lengths : ∀ name ∈ schedulerNames, ∀ key, (row name key).length = loadPoints.length
  fcfs : loadPoints.Pairwise (· ≤ ·) → ∀ key ≠ Metric.holCount, (row "fcfs" key).Pairwise (· ≤ ·)
  sjf : List.Forall₂ (· ≤ ·) (row "sjf_oracle" .meanJct) (row "fcfs" .meanJct)
  srpt : row "srpt_oracle" = row "sjf_oracle"
  priority : samePriority → row "priority_fcfs" = row "fcfs"

/-- A seed whose loader has enough jobs that all take time and have sizes in single precision, and whose
ranker is trained without a fault. -/
structure SeedEnv.Ready (nTrain nEval : ℕ) (env : SeedEnv) : Prop where
  loads : ∃ trace, env.load (nTrain + nEval) = .ok trace ∧ nTrain + nEval ≤ trace.length ∧
    ∀ tj ∈ trace, 0 < tj.trueMs ∧ FitsSingle (floatOfInt tj.payloadSize)
  length : nTrain + nEval < 2 ^ 53
  trains : env.ranker.Trains
  getAll : env.ranker.faults.getAll = none
  setReference : env.ranker.faults.setReference = none

/-- All jobs of the trace have one priority. -/
def SeedEnv.SamePriority (nTrain nEval : ℕ) (env : SeedEnv) : Prop :=
  ∀ trace, env.load (nTrain + nEval) = .ok trace → ∀ a ∈ trace, ∀ b ∈ trace, a.priority = b.priority

section SeedRun
variable {ρ : Type} (random : PyRandom ρ) {fuel nTrain nEval : ℕ} {loadPoints : List ℚ}

theorem length_of_swept {w : Workload} {c : Contender} {valuess : List (Metric → ℚ)}
    (h : Workload.Swept w loadPoints c valuess) : valuess.length = loadPoints.length := by
  induction h with
  | nil c => rfl
  | cons _ _ ih => rw [List.length_cons, List.length_cons, ih]

theorem exists_seedRows {w : Workload} (hfuel : 6 * w.evalTrace.length + 2 < w.fuel)
    (htrue : ∀ tj ∈ w.evalTrace, 0 < tj.trueMs) (hmean : 0 ≤ w.meanTrueMs)
    (hloads : ∀ load ∈ loadPoints, 0 < load) (seed : ℤ) {ranker : TaskRanker} {clock : ℕ → Instant}
    {stats : TypeStats} (hcoded : Coded ranker.estimator)
    (hscores : ∀ gap, (rankedScheduler ranker clock stats).Scores (fun s => Coded s.1) (w.jobsAt gap)) :
    ∃ metrics, w.runLoads loadPoints (contenders random seed ranker clock stats)
        (emptyMetrics (contenders random seed ranker clock stats)) = .ok metrics ∧
      metrics.names = schedulerNames ∧
      SeedRows loadPoints (∀ a ∈ w.evalTrace, ∀ b ∈ w.evalTrace, a.priority = b.priority) metrics.row := by
  have hne : ∀ load ∈ loadPoints, load ≠ 0 := fun load hmem => (hloads load hmem).ne'
  obtain ⟨fcfs, hfcfs, hfcfsAt⟩ := exists_swept () hfuel htrue hne (fun _ => fcfs_selects.among _) trivial
  obtain ⟨sjf, hsjf, hsjfAt⟩ := exists_swept () hfuel htrue hne (fun _ => sjf_selects.among _) trivial
  obtain ⟨srpt, hsrpt, hsrptAt⟩ := exists_swept () hfuel htrue hne (fun _ => srpt_selects.among _) trivial
  obtain ⟨drawn, hdrawn, -⟩ := exists_swept (random.seed seed) hfuel htrue hne
    (fun _ => (random_selects random).among _) trivial
  obtain ⟨priority, hpriority, hpriorityAt⟩ := exists_swept () hfuel htrue hne
    (fun _ => priority_selects.among _) trivial
  obtain ⟨ranked, hranked, -⟩ := exists_swept (ranker.estimator, 0) hfuel htrue hne
    (fun gap => (hscores gap).selects) hcoded
  have hswept : List.Forall₂ (Workload.Swept w loadPoints)
      (contenders random seed ranker clock stats) [fcfs, sjf, srpt, drawn, priority, ranked] :=
    .cons hfcfs (.cons hsjf (.cons hsrpt (.cons hdrawn (.cons hpriority (.cons hranked .nil)))))
  have hnames : (contenders random seed ranker clock stats).map Contender.name = schedulerNames := rfl
  obtain ⟨metrics, hmetrics, hmetricsNames, -, hrows⟩ := Workload.runLoads_ok hswept
    (by rw [hnames]; decide) (emptyMetrics (contenders random seed ranker clock stats))
  refine ⟨metrics, hmetrics, hmetricsNames.trans hnames, ?_⟩
  obtain ⟨hfcfsRow, hrows'⟩ := List.forall₂_cons.mp hrows
  obtain ⟨hsjfRow, hrows'⟩ := List.forall₂_cons.mp hrows'
  obtain ⟨hsrptRow, hrows'⟩ := List.forall₂_cons.mp hrows'
  obtain ⟨-, hrows'⟩ := List.forall₂_cons.mp hrows'
  obtain ⟨hpriorityRow, -⟩ := List.forall₂_cons.mp hrows'
  replace hfcfsRow : ∀ key, metrics.row "fcfs" key = fcfs.map fun values => values key := hfcfsRow
  replace hsjfRow : ∀ key, metrics.row "sjf_oracle" key = sjf.map fun values => values key := hsjfRow
  replace hsrptRow : ∀ key, metrics.row "srpt_oracle" key = srpt.map fun values => values key := hsrptRow
  replace hpriorityRow : ∀ key, metrics.row "priority_fcfs" key = priority.map fun values => values key :=
    hpriorityRow
  constructor
  case lengths =>
    intro name hname key
    rw [← hnames] at hname
    obtain ⟨c, hc, rfl⟩ := List.mem_map.mp hname
    obtain ⟨i, hi, rfl⟩ := List.getElem_of_mem hc
    have hi' := hswept.length_eq ▸ hi
    have hrow : metrics.row _ key = [] ++ _ := hrows.get hi hi' key
    have hlength := length_of_swept (hswept.get hi hi')
    rw [List.get_eq_getElem] at hrow
    rw [hrow, List.nil_append, List.length_map, hlength]
  case fcfs =>
    intro hsorted key hkey
    rw [hfcfsRow, List.pairwise_map]
    exact pairwise_of_forall₂ hfcfsAt hsorted fun load hmem load' hle values values' h h' =>
      h.fcfs_le hmean htrue (hloads load hmem) hle h' key hkey
  case sjf =>
    rw [hsjfRow, hfcfsRow, List.forall₂_map_left_iff, List.forall₂_map_right_iff]
    exact forall₂_of_common hsjfAt hfcfsAt fun load hmem values values' h h' =>
      h.sjf_le htrue (hne load hmem) h'
  case srpt =>
    have hsame : List.Forall₂ Eq srpt sjf :=
      forall₂_of_common hsrptAt hsjfAt fun load hmem values values' h h' => h.srpt_eq (hne load hmem) h'
    obtain rfl := List.forall₂_eq_eq_eq ▸ hsame
    funext key
    rw [hsrptRow, hsjfRow]
  case priority =>
    intro hpriorities
    have hsame : List.Forall₂ Eq priority fcfs :=
      forall₂_of_common hpriorityAt hfcfsAt fun load hmem values values' h h' =>
        h.priority_eq (hne load hmem) hpriorities h'
    obtain rfl := List.forall₂_eq_eq_eq ▸ hsame
    funext key
    rw [hpriorityRow, hfcfsRow]

theorem exists_runOneSeed {env : SeedEnv} (hready : env.Ready nTrain nEval)
    (hfuel : 6 * nEval + 2 < fuel) (hloads : ∀ load ∈ loadPoints, 0 < load) (seed : ℤ) :
    ∃ metrics, runOneSeed random env fuel nTrain nEval loadPoints seed = .ok metrics ∧
      metrics.names = schedulerNames ∧
      SeedRows loadPoints (env.SamePriority nTrain nEval) metrics.row := by
  obtain ⟨trace, htrace, hlength, hjobs⟩ := hready.loads
  have hsmall := hready.length
  have htraining : Fitting ((trace.take nTrain).map TraceJob.toJob) := by
    refine ⟨List.forall_mem_map.mpr fun tj htj => (hjobs tj (List.mem_of_mem_take htj)).2, ?_⟩
    rw [List.length_map, List.length_take]
    omega
  obtain ⟨ranker, hranker, -, hextractor, hcoded⟩ := exists_trainRanker hready.trains hready.getAll
    hready.setReference env.text env.recordClock htraining 5
  have hevalMem : ∀ tj ∈ (trace.drop nTrain).take nEval, tj ∈ trace := fun tj htj =>
    List.mem_of_mem_drop (List.mem_of_mem_take htj)
  have htrue' : ∀ tj ∈ (trace.drop nTrain).take nEval, 0 < tj.trueMs := fun tj htj =>
    (hjobs tj (hevalMem tj htj)).1
  have hmean : 0 ≤ mean (((trace.drop nTrain).take nEval).map TraceJob.trueMs) :=
    div_nonneg (List.sum_nonneg (List.forall_mem_map.mpr fun tj htj => (htrue' tj htj).le))
      (Nat.cast_nonneg _)
  have hevalLength : ((trace.drop nTrain).take nEval).length = nEval := by
    rw [List.length_take, List.length_drop]
    omega
  have hfit : ∀ gap, Fitting (Workload.jobsAt ⟨fuel, (trace.drop nTrain).take nEval,
      mean (((trace.drop nTrain).take nEval).map TraceJob.trueMs)⟩ gap) := by
    refine fun gap => ⟨List.forall_mem_map.mpr fun tj htj =>
      (hjobs tj.1 (hevalMem tj.1 (List.fst_mem_of_mem_zipIdx htj))).2, ?_⟩
    rw [Workload.jobsAt, List.length_map, List.length_zipIdx, hevalLength]
    omega
  obtain ⟨metrics, hmetrics, hnames, hrows⟩ := exists_seedRows random
    (w := ⟨fuel, (trace.drop nTrain).take nEval, _⟩) (by rw [hevalLength]; exact hfuel) htrue' hmean
    hloads seed hcoded fun gap => rankedScheduler_scores env.extractClock hextractor
      (counts_inRange htraining.length) (hfit gap)
  have hpriority : env.SamePriority nTrain nEval → metrics.row "priority_fcfs" = metrics.row "fcfs" :=
    fun hsame => hrows.priority fun a ha b hb =>
      hsame trace htrace a (hevalMem a ha) b (hevalMem b hb)
  refine ⟨metrics, ?_, hnames, { hrows with priority := hpriority }⟩
  rw [runOneSeed, htrace]
  show (if trace.length < nTrain + nEval then _ else _) = _
  rw [if_neg hlength.not_gt]
  show (Ended.ofExcept (trainRanker _ _ _ _ _)).andThen _ = _
  rw [hranker]
  exact hmetrics

theorem exists_runSeeds {seeds : List (ℤ × SeedEnv)} (hready : ∀ x ∈ seeds, x.2.Ready nTrain nEval)
    (hfuel : 6 * nEval + 2 < fuel) (hloads : ∀ load ∈ loadPoints, 0 < load) :
    ∃ perSeed, runSeeds random fuel nTrain nEval loadPoints seeds = .ok perSeed ∧
      perSeed.length = seeds.length ∧
      ∀ metrics ∈ perSeed, metrics.names = schedulerNames ∧
        SeedRows loadPoints (∀ x ∈ seeds, x.2.SamePriority nTrain nEval) metrics.row := by
  induction seeds with
  | nil => exact ⟨[], rfl, rfl, fun _ hmem => absurd hmem List.not_mem_nil⟩
  | cons x seeds ih =>
    obtain ⟨hhead, htail⟩ := List.forall_mem_cons.mp hready
    obtain ⟨metrics, hmetrics, hnames, hrows⟩ := exists_runOneSeed random hhead hfuel hloads x.1
    obtain ⟨perSeed, hperSeed, hlength, hall⟩ := ih htail
    refine ⟨metrics :: perSeed, ?_, congrArg Nat.succ hlength, List.forall_mem_cons.mpr ⟨?_, ?_⟩⟩
    · rw [runSeeds, hmetrics, hperSeed]
      rfl
    · have hpriority := fun hsame : ∀ y ∈ x :: seeds, y.2.SamePriority nTrain nEval =>
        hrows.priority (hsame x List.mem_cons_self)
      exact ⟨hnames, { hrows with priority := hpriority }⟩
    · intro other hmem
      obtain ⟨hnames', hrows'⟩ := hall other hmem
      have hpriority := fun hsame : ∀ y ∈ x :: seeds, y.2.SamePriority nTrain nEval =>
        hrows'.priority fun y hy => hsame y (List.mem_cons_of_mem _ hy)
      exact ⟨hnames', { hrows' with priority := hpriority }⟩

end SeedRun

/-! ## Stacking -/

section Stacking
variable {metrics : Metrics} {perSeed : List Metrics} {names : List String} {loadPoints : List ℚ}
  {table : Table} {cells : List (String × Metric)}

theorem appendValues_eq_ok {cols : List (List ℚ)} {values : List ℚ} (h : values.length = cols.length) :
    appendValues cols values = .ok (addRow cols values) := by
  induction cols generalizing values with
  | nil =>
    obtain rfl := List.length_eq_zero_iff.mp h
    rfl
  | cons col cols ih =>
    cases values with
    | nil => cases h
    | cons v values =>
      rw [appendValues, ih (Nat.succ_injective h)]
      rfl

/-- One seed: every cell gets one row more. -/
theorem exists_stackCells (hnd : cells.Nodup) (hnames : ∀ cell ∈ cells, cell.1 ∈ metrics.names)
    (hlength : ∀ cell ∈ cells, (metrics.row cell.1 cell.2).length = (table cell).length) :
    ∃ stacked, cells.foldlM (stackCell metrics) table = .ok stacked ∧
      (∀ cell ∈ cells, stacked cell = addRow (table cell) (metrics.row cell.1 cell.2)) ∧
      ∀ cell ∉ cells, stacked cell = table cell := by
  induction cells generalizing table with
  | nil => exact ⟨table, rfl, fun cell hmem => absurd hmem List.not_mem_nil, fun _ _ => rfl⟩
  | cons cell cells ih =>
    obtain ⟨hcell, hnd⟩ := List.nodup_cons.mp hnd
    obtain ⟨hname, hnames⟩ := List.forall_mem_cons.mp hnames
    obtain ⟨hrow, hlength⟩ := List.forall_mem_cons.mp hlength
    have hone : stackCell metrics table cell =
        .ok (Function.update table cell (addRow (table cell) (metrics.row cell.1 cell.2))) := by
      rw [stackCell, if_pos hname, appendValues_eq_ok hrow]
      rfl
    have hother : ∀ other ∈ cells, other ≠ cell := fun other hmem heq => hcell (heq ▸ hmem)
    have hlength' : ∀ other ∈ cells, (metrics.row other.1 other.2).length =
        (Function.update table cell (addRow (table cell) (metrics.row cell.1 cell.2)) other).length := by
      intro other hmem
      rw [Function.update_of_ne (hother other hmem)]
      exact hlength other hmem
    obtain ⟨stacked, hstacked, hin, hout⟩ := ih hnd hnames hlength'
    refine ⟨stacked, ?_, ?_, ?_⟩
    · rw [List.foldlM_cons, hone]
      exact hstacked
    · refine List.forall_mem_cons.mpr ⟨?_, fun other hmem => ?_⟩
      · rw [hout cell hcell, Function.update_self]
      · rw [hin other hmem, Function.update_of_ne (hother other hmem)]
    · intro other hmem
      rw [List.mem_cons, not_or] at hmem
      rw [hout other hmem.2, Function.update_of_ne hmem.1]

theorem exists_stackSeeds (hnd : (cellsOf names).Nodup)
    (hnames : ∀ metrics ∈ perSeed, ∀ cell ∈ cellsOf names, cell.1 ∈ metrics.names)
    (hlength : ∀ metrics ∈ perSeed, ∀ cell ∈ cellsOf names,
      (metrics.row cell.1 cell.2).length = loadPoints.length) :
    ∃ stacked, stackSeeds perSeed names loadPoints = .ok stacked ∧ ∀ cell ∈ cellsOf names,
      stacked cell = stack loadPoints.length (perSeed.map fun metrics => metrics.row cell.1 cell.2) := by
  unfold stackSeeds stack
  rw [List.map_const']
  have hempty : ∀ cell ∈ cellsOf names,
      (List.replicate loadPoints.length ([] : List ℚ)).length = loadPoints.length :=
    fun _ _ => List.length_replicate
  suffices ∀ table : Table, (∀ cell ∈ cellsOf names, (table cell).length = loadPoints.length) →
      ∃ stacked, perSeed.foldlM (fun table metrics => (cellsOf names).foldlM (stackCell metrics) table)
          table = .ok stacked ∧
        ∀ cell ∈ cellsOf names, stacked cell =
          (perSeed.map fun metrics => metrics.row cell.1 cell.2).foldl addRow (table cell) from
    this _ hempty
  clear hempty
  induction perSeed with
  | nil => exact fun table _ => ⟨table, rfl, fun _ _ => rfl⟩
  | cons metrics perSeed ih =>
    intro table htable
    obtain ⟨hname, hnames⟩ := List.forall_mem_cons.mp hnames
    obtain ⟨hrow, hlength⟩ := List.forall_mem_cons.mp hlength
    obtain ⟨next, hnext, hin, -⟩ := exists_stackCells hnd hname
      fun cell hmem => (hrow cell hmem).trans (htable cell hmem).symm
    have hnextLength : ∀ cell ∈ cellsOf names, (next cell).length = loadPoints.length := by
      intro cell hmem
      rw [hin cell hmem, length_addRow ((hrow cell hmem).trans (htable cell hmem).symm),
        htable cell hmem]
    obtain ⟨stacked, hstacked, hall⟩ := ih hnames hlength next hnextLength
    refine ⟨stacked, ?_, fun cell hmem => ?_⟩
    · rw [List.foldlM_cons, hnext]
      exact hstacked
    · rw [hall cell hmem, hin cell hmem]
      rfl

end Stacking

/-! ## The curves -/

/-- What the columns and the medians of a result satisfy. -/
structure LoadSweep.Curves (sweep : LoadSweep) (samePriority : Prop) : Prop where
  names : sweep.names = schedulerNames
  sizes : ∀ name ∈ sweep.names, ∀ key,
    (sweep.stacked (name, key)).length = sweep.loadPoints.length ∧
      ∀ col ∈ sweep.stacked (name, key), col.length = sweep.seeds.length
  fcfs : sweep.loadPoints.Pairwise (· ≤ ·) → ∀ key ≠ Metric.holCount,
    (sweep.stacked ("fcfs", key)).Pairwise (List.Forall₂ (· ≤ ·)) ∧
      (sweep.medians ("fcfs", key)).Pairwise (· ≤ ·)
  sjf : List.Forall₂ (List.Forall₂ (· ≤ ·)) (sweep.stacked ("sjf_oracle", .meanJct))
      (sweep.stacked ("fcfs", .meanJct)) ∧
    List.Forall₂ (· ≤ ·) (sweep.medians ("sjf_oracle", .meanJct)) (sweep.medians ("fcfs", .meanJct))
  srpt : ∀ key, sweep.stacked ("srpt_oracle", key) = sweep.stacked ("sjf_oracle", key)
  priority : samePriority → ∀ key, sweep.stacked ("priority_fcfs", key) = sweep.stacked ("fcfs", key)

theorem mem_cellsOf {name : String} {names : List String} (h : name ∈ names) (key : Metric) :
    (name, key) ∈ cellsOf names := by
  refine List.mem_flatMap.mpr ⟨name, h, ?_⟩
  cases key <;> simp

theorem fst_mem_of_mem_cellsOf {names : List String} {cell : String × Metric} (h : cell ∈ cellsOf names) :
    cell.1 ∈ names := by
  obtain ⟨name, hname, hcell⟩ := List.mem_flatMap.mp h
  simp only [List.mem_cons, List.not_mem_nil, or_false] at hcell
  rcases hcell with rfl | rfl | rfl <;> exact hname

theorem curves_of_stacked {sweep : LoadSweep} {samePriority : Prop} {perSeed : List Metrics}
    (hnames : sweep.names = schedulerNames) (hlength : perSeed.length = sweep.seeds.length)
    (hrows : ∀ metrics ∈ perSeed, SeedRows sweep.loadPoints samePriority metrics.row)
    (hstacked : ∀ name ∈ schedulerNames, ∀ key, sweep.stacked (name, key) =
      stack sweep.loadPoints.length (perSeed.map fun metrics => metrics.row name key)) :
    sweep.Curves samePriority := by
  have hfcfs := hstacked "fcfs" (by decide)
  have hsjf := hstacked "sjf_oracle" (by decide)
  have hsrpt := hstacked "srpt_oracle" (by decide)
  have hpriority := hstacked "priority_fcfs" (by decide)
  constructor
  case names => exact hnames
  case sizes =>
    rw [hnames]
    intro name hname key
    rw [hstacked name hname key, ← hlength]
    constructor
    · exact length_stack (List.forall_mem_map.mpr fun metrics hmem =>
        (hrows metrics hmem).lengths name hname key)
    · intro col hcol
      rw [length_of_mem_stack hcol, List.length_map]
  case fcfs =>
    intro hsorted key hkey
    have hcolumns : (sweep.stacked ("fcfs", key)).Pairwise (List.Forall₂ (· ≤ ·)) := by
      rw [hfcfs key]
      exact pairwise_stack (List.forall_mem_map.mpr fun metrics hmem =>
        (hrows metrics hmem).fcfs hsorted key hkey)
    refine ⟨hcolumns, List.pairwise_map.mpr (hcolumns.imp fun hle => ?_)⟩
    exact roundTwo_mono (median_le hle)
  case sjf =>
    have hcolumns : List.Forall₂ (List.Forall₂ (· ≤ ·)) (sweep.stacked ("sjf_oracle", .meanJct))
        (sweep.stacked ("fcfs", .meanJct)) := by
      rw [hsjf, hfcfs]
      apply stack_forall₂
      rw [List.forall₂_map_left_iff, List.forall₂_map_right_iff, List.forall₂_same]
      exact fun metrics hmem => (hrows metrics hmem).sjf
    refine ⟨hcolumns, ?_⟩
    unfold LoadSweep.medians
    rw [List.forall₂_map_left_iff, List.forall₂_map_right_iff]
    exact hcolumns.imp fun _ _ hle => roundTwo_mono (median_le hle)
  case srpt =>
    intro key
    rw [hsrpt, hsjf]
    refine congrArg _ (List.map_congr_left fun metrics hmem => ?_)
    rw [(hrows metrics hmem).srpt]
  case priority =>
    intro hsame key
    rw [hpriority, hfcfs]
    refine congrArg _ (List.map_congr_left fun metrics hmem => ?_)
    rw [(hrows metrics hmem).priority hsame]

/-- The experiment ends. In every seed's column FCFS never gets faster at a higher load, the mean of SJF is
never above that of FCFS, SRPT is SJF, and without priorities `priority_fcfs` is FCFS; and so it is with the
medians over the seeds. -/
theorem run_experiment_curves {ρ : Type} (random : PyRandom ρ) (fuel nTrain nEval : ℕ)
    (loadPoints : List ℚ) (seeds : List (ℤ × SeedEnv)) (hseeds : seeds ≠ [])
    (hready : ∀ x ∈ seeds, x.2.Ready nTrain nEval) (hfuel : 6 * nEval + 2 < fuel)
    (hloads : ∀ load ∈ loadPoints, 0 < load) :
    ∃ sweep, runExperiment random fuel nTrain nEval loadPoints seeds = .ok sweep ∧
      sweep.seeds = seeds.map Prod.fst ∧ sweep.loadPoints = loadPoints ∧
      sweep.Curves (∀ x ∈ seeds, x.2.SamePriority nTrain nEval) := by
  obtain ⟨perSeed, hperSeed, hlength, hall⟩ := exists_runSeeds random hready hfuel hloads
  cases perSeed with
  | nil => exact absurd (List.length_eq_zero_iff.mp hlength.symm) hseeds
  | cons first perSeed =>
    have hfirst : first.names = schedulerNames := (hall first List.mem_cons_self).1
    obtain ⟨stacked, hstacked, hcells⟩ := exists_stackSeeds
      (show (cellsOf schedulerNames).Nodup by decide)
      (fun metrics hmem cell hcell => (hall metrics hmem).1 ▸ fst_mem_of_mem_cellsOf hcell)
      fun metrics hmem cell hcell =>
        (hall metrics hmem).2.lengths cell.1 (fst_mem_of_mem_cellsOf hcell) cell.2
    refine ⟨⟨seeds.map Prod.fst, nTrain, nEval, loadPoints, schedulerNames, stacked⟩, ?_, rfl, rfl, ?_⟩
    · rw [runExperiment, hperSeed]
      show (Ended.ofExcept (stackSeeds _ first.names _)).andThen _ = _
      rw [hfirst, hstacked]
      rfl
    · exact curves_of_stacked rfl (hlength.trans (List.length_map _).symm)
        (fun metrics hmem => (hall metrics hmem).2) fun name hname key => hcells _ (mem_cellsOf hname key)

/-- One job to train on, two to evaluate. -/
def convoyEnv : SeedEnv where
  load _ := .ok convoy
  ranker := TaskRanker.sampleEnv {}
  text _ := ""
  recordClock _ := 0
  extractClock _ := 0

theorem run_experiment_curves_convoy :
    ∃ sweep, runExperiment (⟨id, fun state _ => (0, state + 1)⟩ : PyRandom ℤ) 15 1 2 [1 / 2, 1]
        [(42, convoyEnv), (43, convoyEnv)] = .ok sweep ∧
      (sweep.medians ("fcfs", .meanJct)).Pairwise (· ≤ ·) ∧
      sweep.stacked ("priority_fcfs", .p99Jct) = sweep.stacked ("fcfs", .p99Jct) := by
  have hsizes : ∀ tj ∈ convoy, 0 < tj.trueMs ∧ tj.payloadSize.natAbs < 2 ^ 53 := by decide
  have hjobs : ∀ tj ∈ convoy, 0 < tj.trueMs ∧ FitsSingle (floatOfInt tj.payloadSize) := fun tj htj =>
    ⟨(hsizes tj htj).1, _, floatOfInt_small (hsizes tj htj).2, isSingle_intCast (hsizes tj htj).2⟩
  have hready : convoyEnv.Ready 1 2 :=
    ⟨⟨convoy, rfl, by decide, hjobs⟩, by decide, TaskRanker.sampleEnv_trains, rfl, rfl⟩
  have hsame : convoyEnv.SamePriority 1 2 := by
    intro trace htrace
    cases htrace
    decide
  obtain ⟨sweep, hsweep, -, hloads, hcurves⟩ := run_experiment_curves
    (⟨id, fun state _ => (0, state + 1)⟩ : PyRandom ℤ) 15 1 2 [1 / 2, 1]
    [(42, convoyEnv), (43, convoyEnv)] (by decide)
    (List.forall_mem_cons.mpr ⟨hready, List.forall_mem_singleton.mpr hready⟩) (by decide)
    (by decide +kernel)
  refine ⟨sweep, hsweep, (hcurves.fcfs ?_ .meanJct (by decide)).2, hcurves.priority ?_ .p99Jct⟩
  · rw [hloads]
    decide +kernel
  · exact List.forall_mem_cons.mpr ⟨hsame, List.forall_mem_singleton.mpr hsame⟩

end Chronoq.Bench
