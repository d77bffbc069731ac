import Chronoq.Bench.HeadOfLine
import Chronoq.Bench.LoadMonotone
import Chronoq.Bench.PriorityFirst
import Chronoq.Bench.TrainedRanker

/-! # `jct_vs_load.py`: the sweep over loads, schedulers and seeds

The scheduler objects are made once for a seed and keep their state from one run to the next, so a sweep
runs all of them in turn at each load. `runLoads_cons`: what is measured of a scheduler is nevertheless
what a sweep of it alone measures (`Swept`), because the others neither read its state nor write its row.

`Ended` is a computation that may also run out of fuel. -/

namespace Chronoq.Bench
open Foundations Ranker

set_option autoImplicit false

universe u v w

/-! ## Computations -/

abbrev Ended (α : Type u) := Option (Except PyException α)

namespace Ended

def ok {α : Type u} (a : α) : Ended α := some (.ok a)

def raised {α : Type u} (exc : PyException) : Ended α := some (.error exc)

def andThen {α : Type u} {β : Type v} (x : Ended α) (f : α → Ended β) : Ended β :=
  match x with
  | none => none
  | some (.error exc) => raised exc
  | some (.ok a) => f a

def ofExcept {α : Type u} (x : Except PyException α) : Ended α := some x

section Laws
variable {α : Type u} {β : Type v} {γ : Type w}

@[simp] theorem andThen_ok (a : α) (f : α → Ended β) : (ok a).andThen f = f a := rfl

theorem andThen_assoc (x : Ended α) (f : α → Ended β) (g : β → Ended γ) :
    (x.andThen f).andThen g = x.andThen fun a => (f a).andThen g := by
  cases x with
  | none => rfl
  | some x => cases x <;> rfl

theorem andThen_congr {x : Ended α} {f g : α → Ended β} (h : ∀ a, f a = g a) :
    x.andThen f = x.andThen g := congrArg x.andThen (funext h)

end Laws

end Ended

/-! ## One run -/

/-- `_METRIC_KEYS` -/
inductive Metric
  | meanJct
  | p99Jct
  | holCount
  deriving DecidableEq

/-- `round(x, 2)` -/
def roundTwo (x : ℚ) : ℚ := roundHalfEven (x * 100) / 100

def measured (jcts : List ℚ) (p99 : ℚ) : Metric → ℚ
  | .meanJct => roundTwo (meanJct jcts)
  | .p99Jct => roundTwo p99
  | .holCount => holBlockingCount jcts

def measure (jcts : List ℚ) : Except PyException (Metric → ℚ) := (p99Jct jcts).map (measured jcts)

/-- `Simulator(sched, seed=seed)`: one worker, and nothing is drawn from the seed. -/
abbrev BaseScheduler.simulator {σ : Type} (scheduler : BaseScheduler σ) : Simulator σ :=
  ⟨scheduler, 1, le_rfl⟩

/-- A scheduler object. -/
structure Contender where
  State : Type
  scheduler : BaseScheduler State
  state : State

def Contender.name (c : Contender) : String := c.scheduler.name

/-- `run(jobs)`: the jobs it hands back, and the scheduler afterwards. -/
def Contender.simulate (c : Contender) (fuel : ℕ) (jobs : List Job) : Ended (List Job × Contender) :=
  ((c.scheduler.simulator.initial c.state jobs).runFor c.scheduler fuel).map fun ended =>
    match ended with
    | .error exc => .error exc
    | .ok s => .ok (s.completed, ⟨c.State, c.scheduler, s.schedulerState⟩)

/-- What a sweep runs on. -/
structure Workload where
  fuel : ℕ
  evalTrace : List TraceJob
  meanTrueMs : ℚ

namespace Workload
variable (w : Workload)

/-- The body of the two loops of `_run_one_seed`. -/
def runOne (load : ℚ) (c : Contender) : Ended ((Metric → ℚ) × Contender) :=
  (Ended.ofExcept (makeJobs w.evalTrace w.meanTrueMs load)).andThen fun jobs =>
    (c.simulate w.fuel jobs).andThen fun ran =>
      (Ended.ofExcept (measure (ran.1.map Job.jctMs))).andThen fun values => .ok (values, ran.2)

end Workload

/-- `{sched_name: {metric: [one_value_per_load_point]}}`, with its keys in order. -/
structure Metrics where
  names : List String
  row : String → Metric → List ℚ

/-- `metrics[name][metric].append(...)` -/
def Metrics.append (metrics : Metrics) (name : String) (values : Metric → ℚ) : Metrics :=
  { metrics with
    row := Function.update metrics.row name fun key => metrics.row name key ++ [values key] }

namespace Workload
variable (w : Workload)

def runSchedulers (load : ℚ) : List Contender → Metrics → Ended (List Contender × Metrics)
  | [], metrics => .ok ([], metrics)
  | c :: cs, metrics =>
    (w.runOne load c).andThen fun ran =>
      (runSchedulers load cs (metrics.append c.name ran.1)).andThen fun rest =>
        .ok (ran.2 :: rest.1, rest.2)

def runLoads : List ℚ → List Contender → Metrics → Ended Metrics
  | [], _, metrics => .ok metrics
  | load :: loads, cs, metrics =>
    (w.runSchedulers load cs metrics).andThen fun ran => runLoads loads ran.1 ran.2

end Workload

/-! ## The loops apart -/

namespace Metrics

def appendAll (metrics : Metrics) (name : String) (valuess : List (Metric → ℚ)) : Metrics :=
  valuess.foldl (fun metrics values => metrics.append name values) metrics

variable {metrics : Metrics} {name name' : String} {values values' : Metric → ℚ}

theorem append_comm (hne : name ≠ name') : (metrics.append name values).append name' values' =
    (metrics.append name' values').append name values := by
  unfold append
  dsimp only
  rw [Function.update_of_ne hne.symm, Function.update_of_ne hne, Function.update_comm hne]

theorem row_append_self (key : Metric) :
    (metrics.append name values).row name key = metrics.row name key ++ [values key] := by
  show Function.update metrics.row name _ name key = _
  rw [Function.update_self]

theorem row_append_of_ne (hne : name' ≠ name) : (metrics.append name values).row name' = metrics.row name' :=
  Function.update_of_ne hne _ _

theorem row_appendAll_self (valuess : List (Metric → ℚ)) (key : Metric) :
    (metrics.appendAll name valuess).row name key =
      metrics.row name key ++ valuess.map fun values => values key := by
  induction valuess generalizing metrics with
  | nil => exact (List.append_nil _).symm
  | cons values valuess ih =>
    show ((metrics.append name values).appendAll name valuess).row name key = _
    rw [ih, row_append_self, List.append_assoc]
    rfl

theorem row_appendAll_of_ne (hne : name' ≠ name) (valuess : List (Metric → ℚ)) :
    (metrics.appendAll name valuess).row name' = metrics.row name' := by
  induction valuess generalizing metrics with
  | nil => rfl
  | cons values valuess ih => exact ih.trans (row_append_of_ne hne)

theorem names_appendAll (valuess : List (Metric → ℚ)) :
    (metrics.appendAll name valuess).names = metrics.names := by
  induction valuess generalizing metrics with
  | nil => rfl
  | cons values valuess ih => exact ih

end Metrics

namespace Workload
variable {w : Workload} {load : ℚ} {loads : List ℚ} {c c' : Contender} {cs cs' : List Contender}
  {metrics metrics' : Metrics} {name : String} {values : Metric → ℚ} {valuess : List (Metric → ℚ)}

/-- What a sweep of one scheduler alone measures. -/
inductive Swept (w : Workload) : List ℚ → Contender → List (Metric → ℚ) → Prop
  | nil (c : Contender) : Swept w [] c []
  | cons {load : ℚ} {loads : List ℚ} {c c' : Contender} {values : Metric → ℚ}
    {valuess : List (Metric → ℚ)} (hrun : w.runOne load c = .ok (values, c'))
    (hrest : Swept w loads c' valuess) : Swept w (load :: loads) c (values :: valuess)

theorem name_of_runOne (h : w.runOne load c = .ok (values, c')) : c'.name = c.name := by
  unfold runOne at h
  cases hjobs : makeJobs w.evalTrace w.meanTrueMs load with
  | error exc =>
    rw [hjobs] at h
    cases h
  | ok jobs =>
    rw [hjobs] at h
    change (c.simulate w.fuel jobs).andThen _ = _ at h
    unfold Contender.simulate at h
    cases hended : (c.scheduler.simulator.initial c.state jobs).runFor c.scheduler w.fuel with
    | none =>
      rw [hended] at h
      cases h
    | some ended =>
      rw [hended] at h
      cases ended with
      | error exc => cases h
      | ok s =>
        change (Ended.ofExcept (measure (s.completed.map Job.jctMs))).andThen _ = _ at h
        cases hmeasure : measure (s.completed.map Job.jctMs) with
        | error exc =>
          rw [hmeasure] at h
          cases h
        | ok values' =>
          rw [hmeasure] at h
          cases h
          rfl

theorem runSchedulers_append (hname : name ∉ cs.map Contender.name) :
    w.runSchedulers load cs (metrics.append name values) =
      (w.runSchedulers load cs metrics).andThen fun ran =>
        .ok (ran.1, ran.2.append name values) := by
  induction cs generalizing metrics with
  | nil => rfl
  | cons c cs ih =>
    rw [List.map_cons, List.mem_cons, not_or] at hname
    rw [runSchedulers, runSchedulers, Ended.andThen_assoc]
    refine Ended.andThen_congr fun ran => ?_
    rw [Metrics.append_comm hname.1, ih hname.2, Ended.andThen_assoc, Ended.andThen_assoc]
    rfl

theorem names_of_runSchedulers (h : w.runSchedulers load cs metrics = .ok (cs', metrics')) :
    cs'.map Contender.name = cs.map Contender.name := by
  induction cs generalizing metrics cs' with
  | nil =>
    cases h
    rfl
  | cons c cs ih =>
    rw [runSchedulers] at h
    cases hone : w.runOne load c with
    | none =>
      rw [hone] at h
      cases h
    | some result =>
      cases result with
      | error exc =>
        rw [hone] at h
        cases h
      | ok ran =>
        rw [hone] at h
        change (w.runSchedulers load cs (metrics.append c.name ran.1)).andThen _ = _ at h
        cases hrest : w.runSchedulers load cs (metrics.append c.name ran.1) with
        | none =>
          rw [hrest] at h
          cases h
        | some result =>
          cases result with
          | error exc =>
            rw [hrest] at h
            cases h
          | ok rest =>
            rw [hrest] at h
            cases h
            rw [List.map_cons, List.map_cons, ih hrest, name_of_runOne hone]

theorem runLoads_append (hname : name ∉ cs.map Contender.name) :
    w.runLoads loads cs (metrics.append name values) =
      (w.runLoads loads cs metrics).andThen fun ended => .ok (ended.append name values) := by
  induction loads generalizing cs metrics with
  | nil => rfl
  | cons load loads ih =>
    rw [runLoads, runLoads, runSchedulers_append hname]
    cases hran : w.runSchedulers load cs metrics with
    | none => rfl
    | some result =>
      cases result with
      | error exc => rfl
      | ok ran =>
        have hnames := names_of_runSchedulers hran
        exact ih (by rw [hnames]; exact hname)

/-- One scheduler more changes nothing of what is measured of the others. -/
theorem runLoads_cons (hname : c.name ∉ cs.map Contender.name) (hswept : Swept w loads c valuess) :
    w.runLoads loads (c :: cs) metrics =
      (w.runLoads loads cs metrics).andThen fun ended => .ok (ended.appendAll c.name valuess) := by
  induction hswept generalizing cs metrics with
  | nil c => rfl
  | @cons load loads c c' values valuess hrun hrest ih =>
    rw [runLoads, runLoads, runSchedulers, hrun]
    show ((w.runSchedulers load cs (metrics.append c.name values)).andThen _).andThen _ = _
    rw [runSchedulers_append hname]
    cases hran : w.runSchedulers load cs metrics with
    | none => rfl
    | some result =>
      cases result with
      | error exc => rfl
      | ok ran =>
        have hnames := names_of_runSchedulers hran
        have hsame := name_of_runOne hrun
        show w.runLoads loads (c' :: ran.1) (ran.2.append c.name values) =
          (w.runLoads loads ran.1 ran.2).andThen _
        rw [ih (by rw [hnames, hsame]; exact hname), runLoads_append (by rw [hnames]; exact hname),
          Ended.andThen_assoc, hsame]
        rfl

theorem runLoads_nil : w.runLoads loads [] metrics = .ok metrics := by
  induction loads with
  | nil => rfl
  | cons load loads ih => exact ih

/-- Every scheduler gets the row that a sweep of it alone measures. -/
theorem runLoads_ok {vss : List (List (Metric → ℚ))} (h : List.Forall₂ (Swept w loads) cs vss)
    (hnd : (cs.map Contender.name).Nodup) (metrics : Metrics) :
    ∃ ended, w.runLoads loads cs metrics = .ok ended ∧ ended.names = metrics.names ∧
      (∀ name ∉ cs.map Contender.name, ended.row name = metrics.row name) ∧
      List.Forall₂ (fun c valuess => ∀ key, ended.row c.name key =
        metrics.row c.name key ++ valuess.map fun values => values key) cs vss := by
  induction h with
  | nil => exact ⟨metrics, runLoads_nil, rfl, fun _ _ => rfl, .nil⟩
  | @cons c valuess cs vss hswept hrest ih =>
    obtain ⟨hname, hnd⟩ := List.nodup_cons.mp hnd
    obtain ⟨ended, hended, hnames, hothers, hrows⟩ := ih hnd
    refine ⟨ended.appendAll c.name valuess, ?_, ?_, ?_, .cons ?_ ?_⟩
    · rw [runLoads_cons hname hswept, hended]
      rfl
    · rw [Metrics.names_appendAll, hnames]
    · intro name hmem
      rw [List.map_cons, List.mem_cons, not_or] at hmem
      rw [Metrics.row_appendAll_of_ne hmem.1, hothers name hmem.2]
    · intro key
      rw [Metrics.row_appendAll_self, hothers c.name hname]
    · have hothers' : ∀ c' ∈ cs, c'.name ≠ c.name := fun c' hmem heq =>
        hname (heq ▸ List.mem_map_of_mem hmem)
      refine ((List.forall₂_and_left cs vss).mpr ⟨hothers', hrows⟩).imp ?_
      rintro c' valuess' ⟨hne, hrow⟩ key
      rw [Metrics.row_appendAll_of_ne hne, hrow]

end Workload

end Chronoq.Bench
