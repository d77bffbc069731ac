import Chronoq.Demo.PopOrder

/-! # What the workers report to the scheduler

After the mark `completed` a worker calls `report_completion` with what it has read from the hash of the
task, and that is what the predictor learns from. No task is reported twice: an execution is still in the
hands of the worker that made it, or reported, or given up (`report_count`).

* `reports`: the tasks that a run reports.
* `Carried`: the data in a worker's hands are those of the hash, and these were submitted. -/

namespace Chronoq.Demo
open Foundations

set_option autoImplicit false

variable {Id Score : Type}

/-- The task data that the worker has read. -/
def Phase.carries : Phase Id Score → Option (TaskData Id Score)
  | .loading _ (some (some hash)) => hash.data
  | .marking data _ => some data
  | .simulating data => some data
  | .completing data _ => some data
  | _ => none

theorem Phase.carries_loopHead (running : Bool) :
    (loopHead running : Phase Id Score).carries = none := by
  cases running <;> rfl

/-- What the worker reports when its `await` returns: it comes back from the mark `completed`. -/
def Phase.reports : Phase Id Score → List (TaskData Id Score)
  | .completing data true => [data]
  | _ => []

namespace Pool

def reportOf (s : Pool Id Score) : Action Id Score → List (TaskData Id Score)
  | .resume w => (s.workers[w]?.map fun worker => worker.phase.reports).getD []
  | _ => []

def runIds (s : Pool Id Score) : List Id := s.workers.filterMap fun worker => worker.phase.hasRun

variable {s s' t : Pool Id Score} {w : ℕ} {worker : Worker Id Score}

theorem reportOf_resume (hw : s.workers[w]? = some worker) :
    reportOf s (.resume w) = worker.phase.reports := by
  rw [reportOf, hw]
  rfl

theorem Phase.eq_of_mem_reports {phase : Phase Id Score} {data : TaskData Id Score}
    (h : data ∈ phase.reports) : phase = .completing data true := by
  unfold Phase.reports at h
  split at h
  · rw [List.mem_singleton.mp h]
  · cases h

theorem mem_reportOf {a : Action Id Score} {data : TaskData Id Score} (h : data ∈ reportOf s a) :
    ∃ worker ∈ s.workers, worker.phase = .completing data true := by
  cases a with
  | resume w =>
    cases hw : s.workers[w]? with
    | none =>
      rw [reportOf, hw] at h
      cases h
    | some worker =>
      rw [reportOf_resume hw] at h
      exact ⟨worker, List.mem_of_getElem? hw, Phase.eq_of_mem_reports h⟩
  | _ => cases h

/-- The step interrupts a worker that has begun to execute its task and not reported it. -/
def Abandons (s : Pool Id Score) : Action Id Score → Prop
  | .fail w => ∃ worker, s.workers[w]? = some worker ∧ worker.phase.hasRun ≠ none
  | .cancel w => ∃ worker, s.workers[w]? = some worker ∧ worker.phase.hasRun ≠ none
  | _ => False

section Counts
variable [DecidableEq Id]

theorem count_runIds_set (hw : s.workers[w]? = some worker) (worker' : Worker Id Score) (id : Id) :
    ((s.workers.set w worker').filterMap fun worker => worker.phase.hasRun).count id +
        worker.phase.hasRun.toList.count id =
      s.runIds.count id + worker'.phase.hasRun.toList.count id :=
  count_filterMap_set hw worker' id

/-- A worker that goes on has still to report what it has executed, unless it does so now. -/
theorem count_next {running : Bool} {phase phase' : Phase Id Score}
    (h : phase.next running = some phase') (id : Id) :
    (phase.reports.map TaskData.taskId).count id + phase'.hasRun.toList.count id =
      phase.hasRun.toList.count id + phase'.begun.toList.count id := by
  have hbegun : (Phase.loopHead running : Phase Id Score).begun = none := by cases running <;> rfl
  unfold Phase.next at h
  split at h
  all_goals cases h
  case h_1 | h_6 | h_9 =>
    rw [Phase.hasRun_loopHead, hbegun]
    rfl
  case h_5 hash =>
    cases hdata : hash.data with
    | none =>
      rw [Option.elim_none, Phase.hasRun_loopHead, hbegun]
      rfl
    | some data => rfl
  case h_8 => exact Nat.add_comm _ _
  all_goals rfl

end Counts

/-! ## The executions -/

section Steps
variable [LinearOrder Id] [LinearOrder Score] {actions : List (Action Id Score)}

/-- A worker that leaves its `await` gives up what it has executed. -/
theorem report_leave (hstep : s.step (.fail w) = some s' ∨ s.step (.cancel w) = some s') (id : Id) :
    s'.executed = s.executed ∧ s'.runIds.count id ≤ s.runIds.count id ∧
      ((∀ worker, s.workers[w]? = some worker → worker.phase.hasRun = none) →
        s'.runIds.count id = s.runIds.count id) := by
  obtain ⟨worker, phase, hw, hphase, rfl⟩ := leave_effect hstep
  have hset := count_runIds_set hw { worker with phase } id
  have hnone : phase.hasRun = none := by
    rcases hphase with rfl | rfl
    · exact Phase.hasRun_loopHead _
    · rfl
  dsimp only at hset
  rw [hnone] at hset
  change ((s.interrupt worker.phase).setWorker w { worker with phase }).runIds.count id + _ =
    s.runIds.count id + 0 at hset
  refine ⟨rfl, by omega, fun hall => ?_⟩
  rw [hall worker hw] at hset
  exact hset

/-- Every execution that is begun is in the hands of a worker; it leaves them by a report, or it is
abandoned. -/
theorem report_step {a : Action Id Score} (hstep : s.step a = some s') (id : Id) :
    ((reportOf s a).map TaskData.taskId).count id + s'.runIds.count id + s.executed.count id ≤
        s.runIds.count id + s'.executed.count id ∧
      (¬ Abandons s a →
        ((reportOf s a).map TaskData.taskId).count id + s'.runIds.count id + s.executed.count id =
          s.runIds.count id + s'.executed.count id) := by
  have hsame : reportOf s a = [] → s'.runIds = s.runIds → s'.executed = s.executed →
      ((reportOf s a).map TaskData.taskId).count id + s'.runIds.count id + s.executed.count id =
        s.runIds.count id + s'.executed.count id := by
    intro hnone hruns hexecuted
    rw [hnone, hruns, hexecuted]
    simp
  cases a with
  | enqueue data =>
    obtain ⟨-, rfl⟩ := enqueue_effect hstep
    exact ⟨(hsame rfl rfl rfl).le, fun _ => hsame rfl rfl rfl⟩
  | start workerCount =>
    obtain rfl := Option.some.inj hstep
    have hruns : (s.workers ++ List.replicate workerCount ({} : Worker Id Score)).filterMap
        (fun worker => worker.phase.hasRun) = s.runIds := by
      rw [List.filterMap_append, List.filterMap_replicate_of_none rfl, List.append_nil, runIds]
    exact ⟨(hsame rfl hruns rfl).le, fun _ => hsame rfl hruns rfl⟩
  | stop =>
    obtain rfl := Option.some.inj hstep
    have hruns : (s.workers.map fun worker => { worker with cancelling := true }).filterMap
        (fun worker => worker.phase.hasRun) = s.runIds := List.filterMap_map ..
    exact ⟨(hsame rfl hruns rfl).le, fun _ => hsame rfl hruns rfl⟩
  | serve w =>
    obtain ⟨⟨before, cancelling⟩, phase, hw, hserve, hworkers, hexecuted, -⟩ := serve_effect hstep
    have hphase : phase.hasRun = before.hasRun := by
      obtain ⟨rfl, -, rfl⟩ | ⟨id, rfl, -, rfl⟩ | ⟨data, rfl, -, rfl⟩ | ⟨data, rfl, -, rfl⟩ :=
        serveAt_cases hserve
      all_goals rfl
    have hset := count_runIds_set hw ⟨phase, cancelling⟩ id
    rw [← hworkers] at hset
    change s'.runIds.count id + before.hasRun.toList.count id =
      s.runIds.count id + phase.hasRun.toList.count id at hset
    rw [hphase] at hset
    have heq : ((reportOf s (.serve w)).map TaskData.taskId).count id + s'.runIds.count id +
        s.executed.count id = s.runIds.count id + s'.executed.count id := by
      rw [hexecuted]
      change 0 + _ + _ = _
      omega
    exact ⟨heq.le, fun _ => heq⟩
  | resume w =>
    obtain ⟨worker, phase, hw, hnext, rfl⟩ := resume_effect hstep
    have hset := count_runIds_set hw { worker with phase } id
    have hcount := count_next hnext id
    have heq : ((reportOf s (.resume w)).map TaskData.taskId).count id +
        ((s.workers.set w { worker with phase }).filterMap
          fun worker => worker.phase.hasRun).count id + s.executed.count id =
        s.runIds.count id + (s.executed ++ phase.begun.toList).count id := by
      rw [reportOf_resume hw, List.count_append]
      dsimp only at hset
      omega
    exact ⟨heq.le, fun _ => heq⟩
  | fail w =>
    obtain ⟨hexecuted, hle, hkeep⟩ := report_leave (.inl hstep) id
    rw [hexecuted]
    change 0 + _ + _ ≤ _ ∧ (_ → 0 + _ + _ = _)
    refine ⟨by omega, fun hnot => ?_⟩
    have heq := hkeep fun worker hw => by
      by_contra hne
      exact hnot ⟨worker, hw, hne⟩
    omega
  | cancel w =>
    obtain ⟨hexecuted, hle, hkeep⟩ := report_leave (.inr hstep) id
    rw [hexecuted]
    change 0 + _ + _ ≤ _ ∧ (_ → 0 + _ + _ = _)
    refine ⟨by omega, fun hnot => ?_⟩
    have heq := hkeep fun worker hw => by
      by_contra hne
      exact hnot ⟨worker, hw, hne⟩
    omega
  | late i =>
    obtain ⟨-, rfl⟩ | ⟨id', status, -, rfl⟩ := late_effect hstep
    · exact ⟨(hsame rfl rfl rfl).le, fun _ => hsame rfl rfl rfl⟩
    · exact ⟨(hsame rfl rfl rfl).le, fun _ => hsame rfl rfl rfl⟩

/-- What a run reports. -/
def reports (s : Pool Id Score) (actions : List (Action Id Score)) : List (TaskData Id Score) :=
  emitted reportOf s actions

theorem reports_cons {a : Action Id Score} (h : s.step a = some s') (actions : List (Action Id Score)) :
    reports s (a :: actions) = reportOf s a ++ reports s' actions := emitted_cons reportOf h actions

theorem report_run (h : Runs s actions s') (id : Id) :
    ((reports s actions).map TaskData.taskId).count id + s'.runIds.count id + s.executed.count id ≤
        s.runIds.count id + s'.executed.count id ∧
      (EveryStep Steps (fun s a => ¬ Abandons s a) s actions →
        ((reports s actions).map TaskData.taskId).count id + s'.runIds.count id +
          s.executed.count id = s.runIds.count id + s'.executed.count id) := by
  induction h with
  | nil s =>
    change 0 + _ + _ ≤ _ ∧ (_ → 0 + _ + _ = _)
    exact ⟨by omega, fun _ => by omega⟩
  | @cons s t u a actions hstep hrun ih =>
    obtain ⟨hle, heq⟩ := report_step hstep id
    rw [reports_cons hstep, List.map_append, List.count_append]
    refine ⟨by omega, fun horderly => ?_⟩
    obtain ⟨hfirst, hrest⟩ := (everyStep_cons_iff (fun s a t t' h h' => by
      exact Option.some.inj (h.symm.trans h')) hstep).mp horderly
    have hone := heq hfirst
    have hall := ih.2 hrest
    omega

/-! ## What the workers carry -/

structure Carried (s : Pool Id Score) : Prop where
  data : ∀ worker ∈ s.workers, ∀ data, worker.phase.carries = some data → s.HasData data.taskId data
  marked : ∀ worker ∈ s.workers, ∀ data, worker.phase = .completing data true →
    s.statusOf data.taskId = some .completed

omit [LinearOrder Id] [LinearOrder Score] in
theorem next_carries {running : Bool} {phase phase' : Phase Id Score}
    (h : phase.next running = some phase') :
    (∀ data, phase'.carries = some data → phase.carries = some data) ∧
      ∀ data, phase' ≠ .completing data true := by
  have hhead : ∀ data : TaskData Id Score, (Phase.loopHead running : Phase Id Score) ≠
      .completing data true := by
    intro data
    cases running <;> nofun
  unfold Phase.next at h
  split at h
  all_goals cases h
  case h_1 | h_6 | h_9 =>
    refine ⟨fun data hdata => ?_, hhead⟩
    rw [Phase.carries_loopHead] at hdata
    cases hdata
  case h_5 id hash =>
    cases hdata : hash.data with
    | none =>
      refine ⟨fun data hcarries => ?_, hhead⟩
      rw [Option.elim_none, Phase.carries_loopHead] at hcarries
      cases hcarries
    | some data => exact ⟨fun data' hcarries => hdata.trans hcarries, nofun⟩
  case h_7 | h_8 => exact ⟨fun data hdata => hdata, nofun⟩
  all_goals exact ⟨nofun, nofun⟩

/-- The data of a task and the mark `completed` are never taken back. -/
theorem keeps_step {a : Action Id Score} (hinv : Inv s) (hordered : Ordered s)
    (hstep : s.step a = some s') :
    (∀ {id : Id} {data : TaskData Id Score}, s.HasData id data → s'.HasData id data) ∧
      ∀ {id : Id}, s.statusOf id = some .completed → s'.statusOf id = some .completed := by
  refine ⟨hasData_step hinv hstep, fun {id} hid => ?_⟩
  rcases progress_step hinv hordered hstep id with hsame | hnext
  · rw [hsame, hid]
  · -- there is nothing further
    rw [hid] at hnext
    cases hs' : s'.statusOf id with
    | none =>
      rw [hs'] at hnext
      cases hnext
    | some status =>
      rw [hs'] at hnext
      cases status <;> cases hnext

omit [LinearOrder Id] [LinearOrder Score] in
theorem Carried.workers (h : Carried s)
    (hdata : ∀ {id : Id} {data : TaskData Id Score}, s.HasData id data → s'.HasData id data)
    (hmarked : ∀ {id : Id}, s.statusOf id = some .completed → s'.statusOf id = some .completed)
    (hworkers : ∀ worker ∈ s'.workers, (∃ before ∈ s.workers, worker.phase = before.phase) ∨
      (∀ data, worker.phase.carries = some data → s'.HasData data.taskId data) ∧
        ∀ data, worker.phase = .completing data true → s'.statusOf data.taskId = some .completed) :
    Carried s' := by
  constructor
  · intro worker hmem data hphase
    rcases hworkers worker hmem with ⟨before, hbefore, heq⟩ | ⟨hnew, -⟩
    · exact hdata (h.data before hbefore data (heq ▸ hphase))
    · exact hnew data hphase
  · intro worker hmem data hphase
    rcases hworkers worker hmem with ⟨before, hbefore, heq⟩ | ⟨-, hnew⟩
    · exact hmarked (h.marked before hbefore data (heq ▸ hphase))
    · exact hnew data hphase

omit [LinearOrder Id] [LinearOrder Score] in
/-- A worker at the loop head, or one that has ended, carries nothing. -/
theorem left_nothing {running : Bool} {phase : Phase Id Score}
    (h : phase = .loopHead running ∨ phase = .ended) :
    phase.carries = none ∧ ∀ data, phase ≠ .completing data true := by
  rcases h with rfl | rfl
  · exact ⟨Phase.carries_loopHead _, fun data => by cases running <;> nofun⟩
  · exact ⟨rfl, nofun⟩

theorem carried_step {a : Action Id Score} (hinv : Inv s) (hordered : Ordered s)
    (hstep : s.step a = some s') (h : Carried s) : Carried s' := by
  obtain ⟨hdata, hmarked⟩ := keeps_step hinv hordered hstep
  apply h.workers hdata hmarked
  have hold : ∀ {worker : Worker Id Score}, worker ∈ s.workers →
      ∃ before ∈ s.workers, worker.phase = before.phase := fun hmem => ⟨_, hmem, rfl⟩
  -- the other workers are as they were
  have hset : ∀ (w : ℕ) (worker' : Worker Id Score), s'.workers = s.workers.set w worker' →
      (∀ data, worker'.phase.carries = some data → s'.HasData data.taskId data) ∧
        (∀ data, worker'.phase = .completing data true →
          s'.statusOf data.taskId = some .completed) →
      ∀ worker ∈ s'.workers, (∃ before ∈ s.workers, worker.phase = before.phase) ∨
        (∀ data, worker.phase.carries = some data → s'.HasData data.taskId data) ∧
          ∀ data, worker.phase = .completing data true →
            s'.statusOf data.taskId = some .completed := by
    intro w worker' hworkers hnew x hx
    rw [hworkers] at hx
    rcases mem_set hx with rfl | ⟨j, -, hj⟩
    · exact .inr hnew
    · exact .inl (hold (List.mem_of_getElem? hj))
  have hleave : ∀ {w : ℕ}, s.step (.fail w) = some s' ∨ s.step (.cancel w) = some s' →
      ∀ worker ∈ s'.workers, (∃ before ∈ s.workers, worker.phase = before.phase) ∨
        (∀ data, worker.phase.carries = some data → s'.HasData data.taskId data) ∧
          ∀ data, worker.phase = .completing data true →
            s'.statusOf data.taskId = some .completed := by
    intro w hleft
    obtain ⟨worker, phase, hw, hphase, hs'⟩ := leave_effect hleft
    obtain ⟨hnone, hnot⟩ := left_nothing hphase
    apply hset w { worker with phase } (by rw [hs']; rfl)
    constructor
    · intro data hcarries
      rw [hnone] at hcarries
      cases hcarries
    · exact fun data hdone => absurd hdone (hnot data)
  cases a with
  | enqueue data =>
    obtain ⟨-, rfl⟩ := enqueue_effect hstep
    exact fun worker hmem => .inl (hold hmem)
  | start workerCount =>
    obtain rfl := Option.some.inj hstep
    intro worker hmem
    rcases List.mem_append.mp hmem with hmem | hmem
    · exact .inl (hold hmem)
    · rw [List.eq_of_mem_replicate hmem]
      exact .inr ⟨(fun data hcarries => nomatch hcarries), fun data hphase => nomatch hphase⟩
  | stop =>
    obtain rfl := Option.some.inj hstep
    intro worker hmem
    obtain ⟨before, hbefore, rfl⟩ := List.mem_map.mp hmem
    exact .inl ⟨before, hbefore, rfl⟩
  | serve w =>
    obtain ⟨⟨before, cancelling⟩, phase, hw, hserve, hworkers, -⟩ := serve_effect hstep
    have hmem := List.mem_of_getElem? hw
    apply hset w _ hworkers
    obtain ⟨rfl, hredis, rfl⟩ | ⟨id, rfl, hredis, rfl⟩ | ⟨data, rfl, hredis, rfl⟩ |
      ⟨data, rfl, hredis, rfl⟩ := serveAt_cases hserve
    · exact ⟨(fun data hcarries => nomatch hcarries), fun data hphase => nomatch hphase⟩
    · refine ⟨fun data hcarries => ?_, fun data hphase => nomatch hphase⟩
      obtain ⟨⟨hash, hhash⟩, -⟩ := hinv.of_held hw id rfl
      obtain ⟨data', hdata', hid⟩ := hinv.hashes id hash hhash
      change Phase.carries (.loading id (some (s.redis.hashes id))) = some data at hcarries
      rw [hhash] at hcarries
      change hash.data = some data at hcarries
      obtain rfl := Option.some.inj (hdata'.symm.trans hcarries)
      exact hdata ⟨hash, hid ▸ hhash, hdata'⟩
    · exact ⟨fun data' hcarries => hdata (h.data _ hmem data' hcarries),
        fun data hphase => nomatch hphase⟩
    · refine ⟨fun data' hcarries => hdata (h.data _ hmem data' hcarries), fun data' hphase => ?_⟩
      obtain rfl := (Phase.completing.inj hphase).1
      obtain ⟨⟨hash, hhash⟩, -⟩ := hinv.of_held hw data.taskId rfl
      rw [statusOf_hset hhash hredis, if_pos rfl]
  | resume w =>
    obtain ⟨worker, phase, hw, hnext, hs'⟩ := resume_effect hstep
    obtain ⟨hcarries, hnot⟩ := next_carries hnext
    apply hset w { worker with phase } (by rw [hs']; rfl)
    constructor
    · intro data hphase
      exact hdata (h.data worker (List.mem_of_getElem? hw) data (hcarries data hphase))
    · exact fun data hphase => absurd hphase (hnot data)
  | fail w => exact hleave (.inl hstep)
  | cancel w => exact hleave (.inr hstep)
  | late i =>
    obtain ⟨-, rfl⟩ | ⟨id', status, -, rfl⟩ := late_effect hstep
    · exact fun worker hmem => .inl (hold hmem)
    · exact fun worker hmem => .inl (hold hmem)

/-! ## Along a run -/

structure Reporting (s : Pool Id Score) : Prop where
  inv : Inv s
  ordered : Ordered s
  carried : Carried s

theorem reporting_step {a : Action Id Score} (hstep : s.step a = some s') (h : Reporting s) :
    Reporting s' where
  inv := inv_step hstep h.inv
  ordered := (status_effect h.inv h.ordered hstep).1
  carried := carried_step h.inv h.ordered hstep h.carried

omit [LinearOrder Score] in
theorem reporting_empty : Reporting ({} : Pool Id Score) where
  inv := inv_empty
  ordered := ordered_empty
  carried := ⟨(fun _ hmem => nomatch hmem), fun _ hmem => nomatch hmem⟩

/-- The data in a hash were submitted. -/
theorem enqueued_of_hasData (hs : Reporting s) (h : Runs s actions s') {id : Id}
    {data : TaskData Id Score} (hdata : s'.HasData id data) :
    s.HasData id data ∨ Action.enqueue data ∈ actions := by
  induction h with
  | nil s => exact .inl hdata
  | @cons s t u a actions hstep _ ih =>
    rcases ih (reporting_step hstep hs) hdata with hbefore | hmem
    · obtain ⟨hash, hhash, heq⟩ := hbefore
      cases redis_effect hs.inv hstep with
      | same hredis hpops => exact .inl ⟨hash, by rw [← hredis, hhash], heq⟩
      | popped hredis hpops =>
        exact .inl ⟨hash, by rw [← Redis.hashes_zpopmin, ← hredis, hhash], heq⟩
      | enqueued new ha hnew hredis hpops =>
        rw [hredis, Redis.hashes_enqueue, Function.update_apply] at hhash
        split at hhash
        · obtain rfl := Option.some.inj hhash
          obtain rfl := Option.some.inj heq
          exact .inr (ha ▸ List.mem_cons_self)
        · exact .inl ⟨hash, hhash, heq⟩
      | marked id' status hold hredis hpops =>
        obtain ⟨old, hold⟩ := hold
        rw [hredis, Redis.hashes_hset hold, Function.update_apply] at hhash
        split at hhash
        · next hid =>
          obtain rfl := Option.some.inj hhash
          exact .inl ⟨old, hid ▸ hold, heq⟩
        · exact .inl ⟨hash, hhash, heq⟩
    · exact .inr (List.mem_cons_of_mem _ hmem)

theorem keeps_run (hs : Reporting s) (h : Runs s actions s') {id : Id} {data : TaskData Id Score}
    (hboth : s.HasData id data ∧ s.statusOf id = some .completed) :
    s'.HasData id data ∧ s'.statusOf id = some .completed := by
  induction h with
  | nil s => exact hboth
  | cons hstep _ ih =>
    obtain ⟨hdata, hmarked⟩ := keeps_step hs.inv hs.ordered hstep
    exact ih (reporting_step hstep hs) ⟨hdata hboth.1, hmarked hboth.2⟩

/-- What is reported was read from the hash of a task that is marked completed. -/
theorem of_mem_reports (hs : Reporting s) (h : Runs s actions s') {data : TaskData Id Score}
    (hmem : data ∈ reports s actions) :
    s'.HasData data.taskId data ∧ s'.statusOf data.taskId = some .completed := by
  induction h with
  | nil s => cases hmem
  | @cons s t u a actions hstep hrun ih =>
    rw [reports_cons hstep] at hmem
    rcases List.mem_append.mp hmem with hnow | hlater
    · obtain ⟨worker, hworker, hphase⟩ := mem_reportOf hnow
      have hdata := hs.carried.data worker hworker data (by rw [hphase]; rfl)
      have hmarked := hs.carried.marked worker hworker data hphase
      exact keeps_run hs (.cons hstep hrun) ⟨hdata, hmarked⟩
    · exact ih (reporting_step hstep hs) hlater

/-- The predictor hears of a task at most once, and then with the type, size and prediction it was
submitted with, after it was executed and marked completed; and of every task whose execution has begun it
has heard or a worker is still at it, if no worker is interrupted from there to its report. -/
theorem each_task_reported_once {s : Pool Id Score} (h : Runs {} actions s) :
    ((reports {} actions).map TaskData.taskId).Nodup ∧
      (∀ data ∈ reports {} actions, Action.enqueue data ∈ actions ∧ data.taskId ∈ s.executed ∧
        s.statusOf data.taskId = some .completed) ∧
      (EveryStep Steps (fun s a => ¬ Abandons s a) {} actions → ∀ id ∈ s.executed,
        id ∈ (reports {} actions).map TaskData.taskId ∨ id ∈ s.runIds) := by
  have hs : Reporting s :=
    h.preserves (P := Reporting) (fun _ _ _ => reporting_step) reporting_empty
  have hcount : ∀ id, ((reports {} actions).map TaskData.taskId).count id + s.runIds.count id ≤
      s.executed.count id := by
    intro id
    have hrun := (report_run h id).1
    change _ + 0 ≤ 0 + _ at hrun
    omega
  refine ⟨?_, ?_, ?_⟩
  · apply List.nodup_iff_count_le_one.mpr
    intro id
    have hone := hs.inv.once id
    have hknown := known_le_one s id
    have hle := hcount id
    omega
  · intro data hmem
    obtain ⟨hdata, hcompleted⟩ := of_mem_reports reporting_empty h hmem
    refine ⟨?_, hs.ordered.completed _ hcompleted, hcompleted⟩
    rcases enqueued_of_hasData reporting_empty h hdata with ⟨hash, hhash, -⟩ | henqueued
    · cases hhash
    · exact henqueued
  · intro horderly id hid
    have hrun := (report_run h id).2 horderly
    change _ + 0 = 0 + _ at hrun
    have hpos := List.count_pos_iff.mpr hid
    by_cases hreported : 0 < ((reports {} actions).map TaskData.taskId).count id
    · exact .inl (List.count_pos_iff.mp hreported)
    · exact .inr (List.count_pos_iff.mp (by omega))

end Steps

/-- The worker that has executed the one task comes back from its last `await`. -/
def oneReport : List (Action ℕ ℕ) := oneTask ++ [.resume 0]

def poolReported : Pool ℕ ℕ :=
  { poolDone with workers := [⟨.popping none, false⟩] }

theorem oneReport_runs : Runs {} oneReport poolReported := run_of_exec rfl

theorem each_task_reported_once_oneReport :
    reports {} oneReport = [resize] ∧ ((reports {} oneReport).map TaskData.taskId).Nodup :=
  ⟨rfl, (each_task_reported_once oneReport_runs).1⟩

end Pool

end Chronoq.Demo
