import Chronoq.Demo.Telemetry
import Chronoq.Foundations.Statistics
import Chronoq.Ranker.FaultFree

/-! # The demo server

`main.py` puts the queue, the workers and the predictor together. A task is scored and then enqueued, with an
`await` in between; a worker that comes back from the mark `completed` tells the predictor what the task
took. `retrain` may happen inside of that call, and any of its exceptions ends in the worker's handler.

* `Heard`: what the predictor was told of a task, and what it made of it; `heardOf`: what it is told by a step.
* `Account`: the books of the server.
* `server_learns_each_task_once`. -/

namespace Chronoq.Demo
open Foundations Ranker

set_option autoImplicit false

/-! ## Tasks -/

structure Profile where
  baseMs : ℚ
  variance : ℚ
  payloadFactor : ℚ

/-- `TASK_REGISTRY` -/
def taskRegistry : String → Option Profile
  | "resize_image" => some ⟨300, 80, 5 / 100⟩
  | "send_email" => some ⟨150, 30, 1 / 100⟩
  | "generate_report" => some ⟨2000, 500, 1 / 10⟩
  | "compress_file" => some ⟨800, 200, 8 / 100⟩
  | "run_inference" => some ⟨1500, 400, 12 / 100⟩
  | _ => none

/-- `actual_ms` of `simulate_task` before it is clamped; `gauss` is `random.gauss(0, ..)`. -/
def simulatedMs (gauss : ℚ → ℚ) (taskType : String) (payloadSize : ℤ) : Except PyException ℚ :=
  match taskRegistry taskType with
  | none => .ok (500 + gauss 100)
  | some profile => (floatOfInt payloadSize).map fun size =>
    profile.baseMs + size.toRat * profile.payloadFactor + gauss profile.variance

/-- A task that has been scored. -/
structure Submission (Id : Type) where
  taskId : Id
  taskType : String
  payloadSize : ℤ
  prediction : PredictionResult

/-- What `enqueue` is called with. -/
def Submission.data {Id : Type} (sub : Submission Id) : TaskData Id ℚ where
  taskId := sub.taskId
  taskType := sub.taskType
  payloadSize := sub.payloadSize
  predictedMs := sub.prediction.estimatedMs

/-- An entry of the `PredictionTracker`. -/
structure Tracked where
  taskType : String
  predictedMs : ℚ
  actualMs : ℚ
  errorMs : ℚ

def tracked (taskType : String) (predictedMs actualMs : ℚ) : Tracked where
  taskType := taskType
  predictedMs := predictedMs
  actualMs := actualMs
  errorMs := |predictedMs - actualMs|

/-! ## The server -/

/-- `accepted` are the tasks whose transaction has been executed; the client gets the prediction. -/
structure Server (Id : Type) where
  predictor : TaskRanker
  pool : Pool Id ℚ
  enqueuing : List (Submission Id) := []
  accepted : List (Submission Id) := []
  tracker : List Tracked := []
  tasksCompleted : ℕ → ℕ := fun _ => 0

/-- The workers have been started. -/
def Server.boot {Id : Type} (predictor : TaskRanker) (workerCount : ℕ) : Server Id where
  predictor := predictor
  pool := { workers := List.replicate workerCount {}, running := true }

inductive ServerAction (Id : Type)
  /-- `predict` in `score_and_enqueue`; if it returns, the transaction of `enqueue` is sent -/
  | submit (id : Id) (taskType : String) (payloadSize : ℤ) (metadata : Dict String PyValue) (now : Instant)
  /-- Redis executes the transaction -/
  | transact (i : ℕ)
  /-- something happens to the queue and the workers that the predictor is not told of -/
  | pool (a : Action Id ℚ)
  /-- a worker, whose `simulate_task` has returned, comes back from the mark `completed` and goes on to its
  loop head -/
  | report (w : ℕ) (env : RankerEnv) (gauss : ℚ → ℚ)

/-- What the worker hands to `report_completion`. -/
def reportCall {Id : Type} (data : TaskData Id ℚ) (actualMs : ℚ) : RecordCall where
  taskType := data.taskType
  payloadSize := data.payloadSize
  actualMs := actualMs
  metadata := ∅

namespace Server
variable {Id : Type}

/-- The workers are there from the start, and tasks come by `transact`. -/
def onItsOwn (s : Pool Id ℚ) : Action Id ℚ → Bool
  | .enqueue _ => false
  | .start _ => false
  | a => (Pool.reportOf s a).isEmpty

/-- `report_completion`, the tracker and the statistics, unless the first raises. -/
def afterReport (s : Server Id) (pool : Pool Id ℚ) (w : ℕ) (env : RankerEnv) (data : TaskData Id ℚ)
    (actualMs : ℚ) : Server Id :=
  let (predictor, outcome) := s.predictor.record env (reportCall data actualMs)
  if outcome.returns then
    { s with
      predictor, pool
      tracker := pushBounded 200 s.tracker (tracked data.taskType data.predictedMs actualMs)
      tasksCompleted := Function.update s.tasksCompleted w (s.tasksCompleted w + 1) }
  else { s with predictor, pool }

variable [LinearOrder Id]

def step (s : Server Id) : ServerAction Id → Option (Server Id)
  | .submit id taskType payloadSize metadata now =>
    let predictor := s.predictor.predicted (.predict taskType payloadSize metadata now)
    match s.predictor.predictOn taskType payloadSize metadata now with
    | .ok (.prediction result) =>
      some { s with predictor, enqueuing := s.enqueuing ++ [⟨id, taskType, payloadSize, result⟩] }
    | _ => some { s with predictor }
  | .transact i => do
    let sub ← s.enqueuing[i]?
    let pool ← s.pool.step (.enqueue sub.data)
    return { s with
      pool
      enqueuing := s.enqueuing.eraseIdx i
      accepted := s.accepted ++ [sub] }
  | .pool a => if onItsOwn s.pool a then (s.pool.step a).map fun pool => { s with pool } else none
  | .report w env gauss =>
    match Pool.reportOf s.pool (.resume w) with
    | [data] =>
      match simulatedMs gauss data.taskType data.payloadSize with
      | .error _ => none
      | .ok ms => (s.pool.step (.resume w)).map fun pool => s.afterReport pool w env data (max 1 ms)
    | _ => none

abbrev Steps (s : Server Id) (a : ServerAction Id) (s' : Server Id) : Prop := s.step a = some s'

/-- The server makes the steps `actions`. -/
abbrev Runs (s : Server Id) (actions : List (ServerAction Id)) (s' : Server Id) : Prop :=
  Run Steps s actions s'

/-- The step interrupts a worker that has executed its task and not reported it. -/
def Abandons (s : Server Id) : ServerAction Id → Prop
  | .pool a => Pool.Abandons s.pool a
  | _ => False

end Server

/-! ## What the predictor is told -/

/-- A report: the task and what it took, the record if it was saved, and whether `record` returned. -/
structure Heard (Id : Type) where
  worker : ℕ
  data : TaskData Id ℚ
  actualMs : ℚ
  record : Option TaskRecord
  returned : Bool
  one_le : 1 ≤ actualMs
  of_record : ∀ r ∈ record, r.taskType = data.taskType ∧ r.payloadSize = data.payloadSize ∧
    r.actualMs = actualMs ∧ r.metadata = ∅
  saved : returned = true → record.isSome = true

namespace Heard
variable {Id : Type}

def taskId (x : Heard Id) : Id := x.data.taskId

def entry (x : Heard Id) : Tracked := tracked x.data.taskType x.data.predictedMs x.actualMs

/-- The report of the worker `w`. -/
def report (r : TaskRanker) (w : ℕ) (env : RankerEnv) (data : TaskData Id ℚ) (ms : ℚ) : Heard Id where
  worker := w
  data := data
  actualMs := max 1 ms
  record := r.storedRecord env (reportCall data (max 1 ms))
  returned := (r.record env (reportCall data (max 1 ms))).2.returns
  one_le := le_max_left 1 ms
  of_record := by
    intro record hrecord
    unfold TaskRanker.storedRecord at hrecord
    split at hrecord
    · cases hrecord
      exact ⟨rfl, rfl, rfl, rfl⟩
    · cases hrecord
  saved := TaskRanker.isSome_storedRecord_of_returns

end Heard

namespace Server
variable {Id : Type}

def heardOf (s : Server Id) : ServerAction Id → List (Heard Id)
  | .report w env gauss =>
    (Pool.reportOf s.pool (.resume w)).filterMap fun data =>
      (simulatedMs gauss data.taskType data.payloadSize).toOption.map
        (Heard.report s.predictor w env data)
  | _ => []

theorem heardOf_report {s : Server Id} {w : ℕ} {env : RankerEnv} {gauss : ℚ → ℚ} {data : TaskData Id ℚ}
    {ms : ℚ} (hdata : Pool.reportOf s.pool (.resume w) = [data])
    (hms : simulatedMs gauss data.taskType data.payloadSize = .ok ms) :
    heardOf s (.report w env gauss) = [Heard.report s.predictor w env data ms] := by
  rw [heardOf, hdata, List.filterMap_cons, hms]
  rfl

/-! ## What a step does -/

section Effects
variable [LinearOrder Id] {s s' : Server Id}

theorem submit_effect {id : Id} {taskType : String} {payloadSize : ℤ}
    {metadata : Dict String PyValue} {now : Instant}
    (hstep : s.step (.submit id taskType payloadSize metadata now) = some s') :
    ∃ new, s' = { s with
        predictor := s.predictor.predicted (.predict taskType payloadSize metadata now)
        enqueuing := s.enqueuing ++ new } ∧
      ∀ sub ∈ new, sub.payloadSize = payloadSize ∧
        s.predictor.predictOn taskType payloadSize metadata now = .ok (.prediction sub.prediction) := by
  rw [step] at hstep
  split at hstep
  · next result hresult =>
    cases hstep
    refine ⟨[⟨id, taskType, payloadSize, result⟩], rfl, fun sub hsub => ?_⟩
    rw [List.mem_singleton.mp hsub]
    exact ⟨rfl, hresult⟩
  · cases hstep
    refine ⟨[], ?_, fun sub hsub => nomatch hsub⟩
    rw [List.append_nil]

theorem transact_effect {i : ℕ} (hstep : s.step (.transact i) = some s') :
    ∃ sub pool, sub ∈ s.enqueuing ∧ s.pool.step (.enqueue sub.data) = some pool ∧
      s' = { s with
        pool
        enqueuing := s.enqueuing.eraseIdx i
        accepted := s.accepted ++ [sub] } := by
  obtain ⟨sub, hsub, hstep⟩ := Option.bind_eq_some_iff.mp hstep
  obtain ⟨pool, hpool, hstep⟩ := Option.bind_eq_some_iff.mp hstep
  exact ⟨sub, pool, List.mem_of_getElem? hsub, hpool, (Option.some.inj hstep).symm⟩

theorem pool_effect {a : Action Id ℚ} (hstep : s.step (.pool a) = some s') :
    ∃ pool, s.pool.step a = some pool ∧ Pool.reportOf s.pool a = [] ∧ (∀ data, a ≠ .enqueue data) ∧
      s' = { s with pool } := by
  rw [step] at hstep
  split at hstep
  · next hown =>
    obtain ⟨pool, hpool, rfl⟩ := Option.map_eq_some_iff.mp hstep
    refine ⟨pool, hpool, ?_, ?_, rfl⟩
    · cases a with
      | enqueue data => cases hown
      | start workerCount => cases hown
      | _ => exact List.isEmpty_iff.mp hown
    · rintro data rfl
      cases hown
  · cases hstep

theorem report_effect {w : ℕ} {env : RankerEnv} {gauss : ℚ → ℚ}
    (hstep : s.step (.report w env gauss) = some s') :
    ∃ data ms pool, Pool.reportOf s.pool (.resume w) = [data] ∧
      simulatedMs gauss data.taskType data.payloadSize = .ok ms ∧
      s.pool.step (.resume w) = some pool ∧ s' = s.afterReport pool w env data (max 1 ms) := by
  rw [step] at hstep
  split at hstep
  · next data hdata =>
    split at hstep
    · cases hstep
    · next ms hms =>
      obtain ⟨pool, hpool, rfl⟩ := Option.map_eq_some_iff.mp hstep
      exact ⟨data, ms, pool, hdata, hms, hpool, rfl⟩
  · cases hstep

end Effects

end Server

/-! ## The books -/

/-- What the predictor was told, against the pool and the tasks that were accepted. -/
structure Books {Id : Type} [LinearOrder Id] (orderly : Prop) (pool : Pool Id ℚ)
    (accepted : List (Submission Id)) (heard : List (Heard Id)) : Prop where
  reporting : Pool.Reporting pool
  scored : Pool.Scored pool
  accepted : ∀ id data, pool.HasData id data → ∃ sub ∈ accepted, sub.data = data
  once : ∀ id, (heard.map Heard.taskId).count id + pool.runIds.count id ≤ pool.executed.count id
  kept : orderly → ∀ id,
    (heard.map Heard.taskId).count id + pool.runIds.count id = pool.executed.count id
  marked : ∀ x ∈ heard, pool.HasData x.taskId x.data ∧ pool.statusOf x.taskId = some .completed

section Books
variable {Id : Type} [LinearOrder Id] {orderly : Prop} {pool pool' : Pool Id ℚ}
  {accepted accepted' : List (Submission Id)} {heard more : List (Heard Id)}

theorem Books.step {a : Action Id ℚ} (h : Books orderly pool accepted heard)
    (hstep : pool.step a = some pool') (hsub : accepted ⊆ accepted')
    (hnew : ∀ data, a = .enqueue data → ∃ sub ∈ accepted', sub.data = data)
    (horderly : orderly → ¬ Pool.Abandons pool a) (hmore : more.map Heard.data = Pool.reportOf pool a) :
    Books orderly pool' accepted' (heard ++ more) := by
  have hids : (heard ++ more).map Heard.taskId =
      heard.map Heard.taskId ++ (Pool.reportOf pool a).map TaskData.taskId := by
    rw [List.map_append, ← hmore, List.map_map]
    rfl
  obtain ⟨hdata, hmarked⟩ := Pool.keeps_step h.reporting.inv h.reporting.ordered hstep
  constructor
  case reporting => exact Pool.reporting_step hstep h.reporting
  case scored => exact (Pool.scored_step hstep ⟨h.reporting.inv, h.scored⟩).2
  case accepted =>
    intro id data hhas
    rcases Pool.enqueued_of_hasData h.reporting (.single hstep) hhas with hold | hmem
    · obtain ⟨sub, hmem, heq⟩ := h.accepted id data hold
      exact ⟨sub, hsub hmem, heq⟩
    · exact hnew data (List.mem_singleton.mp hmem).symm
  case once =>
    intro id
    have hbefore := h.once id
    have hreport := (Pool.report_step hstep id).1
    rw [hids, List.count_append]
    omega
  case kept =>
    intro ho id
    have hbefore := h.kept ho id
    have hreport := (Pool.report_step hstep id).2 (horderly ho)
    rw [hids, List.count_append]
    omega
  case marked =>
    intro x hx
    rcases List.mem_append.mp hx with hx | hx
    · exact ⟨hdata (h.marked x hx).1, hmarked (h.marked x hx).2⟩
    · have hreported : x.data ∈ Pool.reportOf pool a := hmore ▸ List.mem_map_of_mem hx
      obtain ⟨worker, hworker, hphase⟩ := Pool.mem_reportOf hreported
      exact ⟨hdata (h.reporting.carried.data worker hworker x.data (by rw [hphase]; rfl)),
        hmarked (h.reporting.carried.marked worker hworker x.data hphase)⟩

/-- A step that the predictor is not told of. -/
theorem Books.silent {a : Action Id ℚ} (h : Books orderly pool accepted heard)
    (hstep : pool.step a = some pool') (hsub : accepted ⊆ accepted')
    (hnew : ∀ data, a = .enqueue data → ∃ sub ∈ accepted', sub.data = data)
    (horderly : orderly → ¬ Pool.Abandons pool a) (hsilent : Pool.reportOf pool a = []) :
    Books orderly pool' accepted' heard := by
  rw [← List.append_nil heard]
  exact h.step hstep hsub hnew horderly hsilent.symm

end Books

/-- The server with what its predictor was told since the start. -/
structure Account {Id : Type} [LinearOrder Id] (orderly : Prop) (store : List TaskRecord) (s : Server Id)
    (heard : List (Heard Id)) : Prop extends Books orderly s.pool s.accepted heard where
  store : s.predictor.store = store ++ heard.filterMap Heard.record
  tracker : s.tracker = ((heard.filter Heard.returned).map Heard.entry).rtake 200
  completed : ∀ w, s.tasksCompleted w = heard.countP fun x => x.worker = w ∧ x.returned = true

namespace Server
variable {Id : Type} [LinearOrder Id] {orderly : Prop} {store : List TaskRecord} {s s' : Server Id}
  {heard : List (Heard Id)} {actions : List (ServerAction Id)}

theorem account_boot (orderly : Prop) (r : TaskRanker) (workerCount : ℕ) :
    Account orderly r.store (boot r workerCount : Server Id) [] := by
  have hstart : ({} : Pool Id ℚ).step (.start workerCount) =
      some (boot r workerCount : Server Id).pool := rfl
  have hempty : Books orderly ({} : Pool Id ℚ) ([] : List (Submission Id)) [] := {
    reporting := Pool.reporting_empty
    scored := Pool.scored_empty
    accepted := fun id data hdata => by
      obtain ⟨hash, hhash, -⟩ := hdata
      cases hhash
    once := fun _ => le_rfl
    kept := fun _ _ => rfl
    marked := fun x hx => absurd hx List.not_mem_nil }
  have hbooks := hempty.silent hstart (List.Subset.refl _) (fun data ha => by cases ha)
    (fun _ habandons => habandons) rfl
  exact { hbooks with
    store := (List.append_nil _).symm
    tracker := (List.rtake_nil 200).symm
    completed := fun _ => rfl }

theorem account_step {a : ServerAction Id} (hstep : s.step a = some s')
    (horderly : orderly → ¬ s.Abandons a) (h : Account orderly store s heard) :
    Account orderly store s' (heard ++ heardOf s a) := by
  cases a with
  | submit id taskType payloadSize metadata now =>
    obtain ⟨new, rfl, -⟩ := submit_effect hstep
    show Account orderly store _ (heard ++ [])
    rw [List.append_nil]
    exact { h.toBooks with store := h.store, tracker := h.tracker, completed := h.completed }
  | transact i =>
    obtain ⟨sub, pool, -, hpool, rfl⟩ := transact_effect hstep
    show Account orderly store _ (heard ++ [])
    rw [List.append_nil]
    have hbooks := h.toBooks.silent hpool (List.subset_append_left _ [sub])
      (fun data ha => ⟨sub, List.mem_append_right _ (List.mem_singleton_self sub), by cases ha; rfl⟩)
      (fun _ habandons => habandons) rfl
    exact { hbooks with store := h.store, tracker := h.tracker, completed := h.completed }
  | pool a =>
    obtain ⟨pool, hpool, hsilent, hnot, rfl⟩ := pool_effect hstep
    show Account orderly store _ (heard ++ [])
    rw [List.append_nil]
    have hbooks := h.toBooks.silent hpool (List.Subset.refl _) (fun data ha => absurd ha (hnot data))
      horderly hsilent
    exact { hbooks with store := h.store, tracker := h.tracker, completed := h.completed }
  | report w env gauss =>
    obtain ⟨data, ms, pool, hdata, hms, hpool, rfl⟩ := report_effect hstep
    have hbooks := h.toBooks.step hpool (List.Subset.refl _) (fun data ha => by cases ha)
      (fun _ habandons => habandons)
      (show [Heard.report s.predictor w env data ms].map Heard.data = _ from hdata.symm)
    have hrecords : (s.predictor.record env (reportCall data (max 1 ms))).1.store =
        store ++ (heard ++ [Heard.report s.predictor w env data ms]).filterMap Heard.record := by
      rw [TaskRanker.record_store, h.store, List.filterMap_append, List.append_assoc]
      congr 2
    rw [heardOf_report hdata hms]
    generalize hx : Heard.report s.predictor w env data ms = x at hbooks hrecords
    have hworker : x.worker = w := by rw [← hx]; rfl
    have hentry : tracked data.taskType data.predictedMs (max 1 ms) = x.entry := by
      rw [← hx]
      rfl
    have hreturned : (s.predictor.record env (reportCall data (max 1 ms))).2.returns = x.returned := by
      rw [← hx]
      rfl
    have hcount : ∀ w', (heard ++ [x]).countP (fun x => x.worker = w' ∧ x.returned = true) =
        heard.countP (fun x => x.worker = w' ∧ x.returned = true) +
          if w = w' ∧ x.returned = true then 1 else 0 := by
      intro w'
      rw [List.countP_append, List.countP_singleton, hworker]
      simp
    unfold afterReport
    dsimp only
    rw [hreturned, hentry]
    cases hret : x.returned with
    | false =>
      rw [if_neg Bool.false_ne_true]
      refine { hbooks with store := hrecords, tracker := ?_, completed := fun w' => ?_ }
      · rw [List.filter_append, List.filter_singleton, hret, cond_false, List.append_nil]
        exact h.tracker
      · rw [hcount, hret, if_neg (by simp)]
        exact h.completed w'
    | true =>
      rw [if_pos rfl]
      have htracker : pushBounded 200 s.tracker x.entry =
          (((heard ++ [x]).filter Heard.returned).map Heard.entry).rtake 200 := by
        rw [h.tracker, pushBounded_rtake, List.filter_append, List.filter_singleton, hret, cond_true,
          List.map_append, List.map_singleton]
      have hcompleted : ∀ w', Function.update s.tasksCompleted w (s.tasksCompleted w + 1) w' =
          (heard ++ [x]).countP fun x => x.worker = w' ∧ x.returned = true := by
        intro w'
        rw [hcount, hret, Function.update_apply, ← h.completed]
        by_cases hw : w' = w
        · rw [if_pos hw, if_pos ⟨hw.symm, rfl⟩, hw]
        · rw [if_neg hw, if_neg fun hand => hw hand.1.symm, Nat.add_zero]
      refine { hbooks with store := hrecords, tracker := ?_, completed := hcompleted }
      dsimp only
      exact htracker

theorem account_run {r : TaskRanker} {workerCount : ℕ}
    (h : Run (Guarded (fun s a => orderly → ¬ s.Abandons a) Steps) (boot r workerCount) actions s) :
    ∃ heard, Account orderly r.store s heard := by
  refine h.preserves (P := fun s => ∃ heard, Account orderly r.store s heard) ?_
    ⟨[], account_boot orderly r workerCount⟩
  rintro s a s' ⟨hstep, horderly⟩ ⟨heard, haccount⟩
  exact ⟨_, account_step hstep horderly haccount⟩

/-! ## Along a run -/

theorem nodup_heard (h : Account orderly store s heard) : (heard.map Heard.taskId).Nodup := by
  apply List.nodup_iff_count_le_one.mpr
  intro id
  have honce := h.once id
  have hexecuted := h.reporting.inv.once id
  have hknown := Pool.known_le_one s.pool id
  omega

/-- A task from the request to the report. -/
def oneSubmission : List (ServerAction ℕ) :=
  [.submit 7 "resize_image" 1000 ∅ 0, .transact 0, .pool (.resume 0), .pool (.serve 0),
    .pool (.resume 0), .pool (.serve 0), .pool (.resume 0), .pool (.serve 0), .pool (.resume 0),
    .pool (.resume 0), .pool (.serve 0), .report 0 (TaskRanker.sampleEnv {}) fun _ => 0]

theorem oneSubmission_runs : ∃ s, Runs (boot TaskRanker.idleRanker 1) oneSubmission s := by
  have hsome : (exec step (boot TaskRanker.idleRanker 1) oneSubmission).isSome = true := by
    decide +kernel
  obtain ⟨s, hs⟩ := Option.isSome_iff_exists.mp hsome
  exact ⟨s, run_of_exec hs⟩

end Server

end Chronoq.Demo
