import Chronoq.Demo.TaskConservation

/-! # The status of a task only moves forward

A status is written by the command that a worker sends, or by one that is executed late, after its worker
has given up. What makes the order hold is that everybody who may still write the status of a task relies on
the status that is there (`Phase.assumes`, `Ordered.late`), and that nobody else may write it.

* `Ordered`: the invariant; `ordered_step`: every step keeps it.
* `status_effect`: what a step does to the statuses.
* `status_moves_forward`: a status is pending, then running, then completed, and a task is completed only
  after it was executed. -/

namespace Chronoq.Demo
open Foundations

set_option autoImplicit false

/-- The status that comes after another one. -/
inductive Status.Follows : Status → Status → Prop
  | running : Follows .pending .running
  | completed : Follows .running .completed

variable {Id Score : Type}

/-- The task that the command writes to. -/
def Command.target : Command Id → Option Id
  | .zpopmin => none
  | .hset id _ => some id

namespace Phase

/-- The task in the hands of the worker, and the status it has there. -/
def assumes : Phase Id Score → Option (Id × Status)
  | popping (some (some id)) => some (id, .pending)
  | loading id _ => some (id, .pending)
  | marking data false => some (data.taskId, .pending)
  | marking data true => some (data.taskId, .running)
  | simulating data => some (data.taskId, .running)
  | completing data false => some (data.taskId, .running)
  | _ => none

/-- The task that the worker has executed, or is executing. -/
def hasRun : Phase Id Score → Option Id
  | simulating data => some data.taskId
  | completing data _ => some data.taskId
  | _ => none

theorem holds_of_assumes {phase : Phase Id Score} {id : Id} {status : Status}
    (h : phase.assumes = some (id, status)) : phase.holds = some id := by
  unfold assumes at h
  split at h
  all_goals cases h
  all_goals rfl

@[simp] theorem assumes_loopHead (running : Bool) :
    (loopHead running : Phase Id Score).assumes = none := by
  cases running <;> rfl

@[simp] theorem hasRun_loopHead (running : Bool) :
    (loopHead running : Phase Id Score).hasRun = none := by
  cases running <;> rfl

/-- A worker writes the status after the one that the task has. -/
theorem assumes_of_sent {phase : Phase Id Score} {id : Id} {status : Status}
    (h : phase.sent = some (.hset id status)) :
    ∃ old, phase.assumes = some (id, old) ∧ old.Follows status ∧
      (status = .completed → phase.hasRun = some id) := by
  unfold sent at h
  split at h
  · cases h
  · cases h
    exact ⟨.pending, rfl, .running, fun h => nomatch h⟩
  · cases h
    exact ⟨.running, rfl, .completed, fun _ => rfl⟩
  · cases h

end Phase

namespace Pool
variable {s s' : Pool Id Score} {w : ℕ} {worker : Worker Id Score}

/-- When an `await` returns, the worker goes on with the same task in the same status. -/
theorem next_assumes {running : Bool} {phase phase' : Phase Id Score} (hmatches : ReplyMatches phase)
    (h : phase.next running = some phase') :
    phase'.assumes = phase.assumes ∧
      ∀ id, phase'.hasRun = some id → phase.hasRun = some id ∨ phase'.begun = some id := by
  unfold Phase.next at h
  split at h
  all_goals cases h
  case h_1 | h_6 | h_9 =>
    refine ⟨Phase.assumes_loopHead _, fun id hid => ?_⟩
    rw [Phase.hasRun_loopHead] at hid
    cases hid
  case h_2 => exact ⟨rfl, fun id hid => nomatch hid⟩
  case h_3 => exact ⟨rfl, fun id hid => nomatch hid⟩
  case h_4 =>
    obtain ⟨hash, data, hreply, -⟩ := hmatches
    cases hreply
  case h_5 hash =>
    obtain ⟨hash', data, hreply, hdata, rfl⟩ := hmatches
    obtain rfl := Option.some.inj hreply
    rw [hdata]
    exact ⟨rfl, fun id hid => nomatch hid⟩
  case h_7 => exact ⟨rfl, fun id hid => .inr hid⟩
  case h_8 => exact ⟨rfl, fun id hid => .inl hid⟩

/-! ## The invariant -/

structure Ordered (s : Pool Id Score) : Prop where
  queued : ∀ id ∈ s.queuedIds, s.statusOf id = some .pending
  held : ∀ worker ∈ s.workers, ∀ id status, worker.phase.assumes = some (id, status) →
    s.statusOf id = some status
  late : ∀ id status, Command.hset id status ∈ s.inFlight →
    ∃ old, s.statusOf id = some old ∧ old.Follows status
  /-- no two commands write to one task -/
  targets : (s.inFlight.filterMap Command.target).Nodup
  /-- a task that is executed is marked -/
  ran : ∀ id ∈ s.executed, s.statusOf id = some .running ∨ s.statusOf id = some .completed
  hasRun : ∀ worker ∈ s.workers, ∀ id, worker.phase.hasRun = some id → id ∈ s.executed
  lateRun : ∀ id, Command.hset id .completed ∈ s.inFlight → id ∈ s.executed
  completed : ∀ id, s.statusOf id = some .completed → id ∈ s.executed

/-- A status is written after the one that is there. -/
def Writes (s s' : Pool Id Score) (id : Id) (status : Status) : Prop :=
  (∃ old, s.statusOf id = some old ∧ old.Follows status) ∧
    s'.statusOf id = some status ∧ ∀ id', id' ≠ id → s'.statusOf id' = s.statusOf id'

theorem mem_set {x worker' : Worker Id Score} {l : List (Worker Id Score)} {w : ℕ}
    (h : x ∈ l.set w worker') : x = worker' ∨ ∃ j, j ≠ w ∧ l[j]? = some x := by
  obtain ⟨j, hj⟩ := List.mem_iff_getElem?.mp h
  rw [List.getElem?_set] at hj
  by_cases hw : w = j
  · rw [if_pos hw] at hj
    split at hj
    · exact .inl (Option.some.inj hj).symm
    · cases hj
  · rw [if_neg hw] at hj
    exact .inr ⟨j, Ne.symm hw, hj⟩

section Places
variable [DecidableEq Id]

theorem Inv.held_le_one (h : Inv s) (id : Id) : s.heldIds.count id ≤ 1 := by
  have htokens := h.tokens id
  have hknown := known_le_one s id
  omega

/-- What a worker has in hand no other one has. -/
theorem Inv.not_held_by (h : Inv s) (hw : s.workers[w]? = some worker) {id : Id}
    (hholds : worker.phase.holds = some id) {j : ℕ} {other : Worker Id Score} (hj : j ≠ w)
    (hother : s.workers[j]? = some other) : other.phase.holds ≠ some id := fun hid =>
  hj (holder_unique (h.held_le_one id) hother hw hid hholds)

theorem Inv.not_queued_of_held (h : Inv s) (hw : s.workers[w]? = some worker) {id : Id}
    (hholds : worker.phase.holds = some id) : id ∉ s.queuedIds := by
  intro hmem
  have hheld := one_le_held hw hholds
  have hpos := List.count_pos_iff.mpr hmem
  have htokens := h.tokens id
  have hknown := known_le_one s id
  omega

theorem Inv.not_late_of_held (h : Inv s) (hw : s.workers[w]? = some worker) {id : Id}
    (hholds : worker.phase.holds = some id) (status : Status) :
    Command.hset id status ∉ s.inFlight := fun hmem =>
  not_mem_dropped (h.of_held hw id hholds).2 (h.late id status hmem)

theorem Inv.not_queued_of_dropped (h : Inv s) {id : Id} (hid : id ∈ s.dropped) : id ∉ s.queuedIds := by
  intro hmem
  have hpos := List.count_pos_iff.mpr hmem
  have hsettled := settled_of_mem hid
  have htokens := h.tokens id
  have hknown := known_le_one s id
  omega

theorem Inv.not_held_of_dropped (h : Inv s) {id : Id} (hid : id ∈ s.dropped)
    (hmem : worker ∈ s.workers) : worker.phase.holds ≠ some id := by
  intro hholds
  obtain ⟨j, hj⟩ := List.mem_iff_getElem?.mp hmem
  have hsettled := (h.of_held hj id hholds).2
  rw [settled_of_mem hid] at hsettled
  cases hsettled

end Places

/-! ## Steps that write no status -/

/-- Nothing is written, and what the workers rely on has been there before. -/
theorem Ordered.quiet (h : Ordered s) (hstatus : ∀ id, s'.statusOf id = s.statusOf id)
    (hqueued : ∀ id ∈ s'.queuedIds, id ∈ s.queuedIds)
    (hheld : ∀ worker ∈ s'.workers, ∀ id status, worker.phase.assumes = some (id, status) →
      s.statusOf id = some status)
    (hlate : ∀ command ∈ s'.inFlight, command ∈ s.inFlight ∨ ∃ worker ∈ s.workers,
      worker.phase.sent = some command)
    (htargets : (s'.inFlight.filterMap Command.target).Nodup)
    (hexecuted : ∀ id, id ∈ s'.executed → id ∈ s.executed ∨ s.statusOf id = some .running)
    (hmono : ∀ id ∈ s.executed, id ∈ s'.executed)
    (hrun : ∀ worker ∈ s'.workers, ∀ id, worker.phase.hasRun = some id → id ∈ s'.executed) :
    Ordered s' where
  queued id hid := (hstatus id).trans (h.queued id (hqueued id hid))
  held worker hmem id status hassumes := (hstatus id).trans (hheld worker hmem id status hassumes)
  late id status hmem := by
    rw [hstatus]
    rcases hlate _ hmem with hmem | ⟨worker, hmem, hsent⟩
    · exact h.late id status hmem
    · obtain ⟨old, hassumes, hfollows, -⟩ := Phase.assumes_of_sent hsent
      exact ⟨old, h.held worker hmem id old hassumes, hfollows⟩
  targets := htargets
  ran id hid := by
    rw [hstatus]
    rcases hexecuted id hid with hold | hnew
    · exact h.ran id hold
    · exact .inl hnew
  hasRun := hrun
  lateRun id hmem := by
    rcases hlate _ hmem with hmem | ⟨worker, hmem, hsent⟩
    · exact hmono id (h.lateRun id hmem)
    · obtain ⟨-, -, -, hran⟩ := Phase.assumes_of_sent hsent
      exact hmono id (h.hasRun worker hmem id (hran rfl))
  completed id hid := hmono id (h.completed id ((hstatus id).symm.trans hid))

/-! ## Steps that write a status -/

/-- A status is written that nobody else relies on. -/
theorem Ordered.write (h : Ordered s) {id : Id} {status : Status} (hwrites : Writes s s' id status)
    (hfree : id ∉ s'.queuedIds) (hqueued : ∀ id ∈ s'.queuedIds, id ∈ s.queuedIds)
    (hheld : ∀ worker ∈ s'.workers, ∀ id' old, worker.phase.assumes = some (id', old) →
      s'.statusOf id' = some old)
    (hlate : ∀ command ∈ s'.inFlight, command ∈ s.inFlight)
    (hothers : ∀ status', Command.hset id status' ∉ s'.inFlight)
    (htargets : (s'.inFlight.filterMap Command.target).Nodup) (hexecuted : s'.executed = s.executed)
    (hrun : ∀ worker ∈ s'.workers, ∀ id, worker.phase.hasRun = some id → id ∈ s.executed)
    (hran : status = .completed → id ∈ s.executed) : Ordered s' := by
  obtain ⟨⟨old, hold, hfollows⟩, hnew, hother⟩ := hwrites
  constructor
  case queued =>
    intro id' hid'
    rw [hother id' (fun heq => hfree (heq ▸ hid'))]
    exact h.queued id' (hqueued id' hid')
  case held => exact hheld
  case late =>
    intro id' status' hmem
    rw [hother id' (fun heq => hothers status' (heq ▸ hmem))]
    exact h.late id' status' (hlate _ hmem)
  case targets => exact htargets
  case ran =>
    intro id' hid'
    rw [hexecuted] at hid'
    by_cases heq : id' = id
    · rw [heq, hnew]
      cases hfollows
      · exact .inl rfl
      · exact .inr rfl
    · rw [hother id' heq]
      exact h.ran id' hid'
  case hasRun =>
    rw [hexecuted]
    exact hrun
  case lateRun =>
    intro id' hmem
    rw [hexecuted]
    exact h.lateRun id' (hlate _ hmem)
  case completed =>
    intro id' hid'
    rw [hexecuted]
    by_cases heq : id' = id
    · rw [heq] at hid' ⊢
      exact hran (Option.some.inj (hnew.symm.trans hid'))
    · rw [hother id' heq] at hid'
      exact h.completed id' hid'

/-! ## The steps -/

section Steps
variable [LinearOrder Id] [LinearOrder Score]

theorem mem_queuedIds_pop (hredis : s'.redis = s.redis.zpopmin.1) {id : Id} (hid : id ∈ s'.queuedIds) :
    id ∈ s.queuedIds := by
  have hcount := count_pop hredis id
  have hpos := List.count_pos_iff.mpr hid
  exact List.count_pos_iff.mp (by omega)

theorem mem_queuedIds_of_popped {id : Id} (h : s.redis.zpopmin.2 = some id) : id ∈ s.queuedIds := by
  have hcount := Redis.count_zpopmin s.redis id
  rw [h, Option.toList_some, List.count_singleton_self] at hcount
  exact List.count_pos_iff.mp (by rw [queuedIds]; omega)

theorem ordered_enqueue {data : TaskData Id Score} (h : Ordered s)
    (hstep : s.step (.enqueue data) = some s') :
    Ordered s' ∧ s'.statusOf data.taskId = some .pending ∧ s.statusOf data.taskId = none ∧
      ∀ id, id ≠ data.taskId → s'.statusOf id = s.statusOf id := by
  obtain ⟨hunknown, rfl⟩ := enqueue_effect hstep
  have hnone : s.redis.hashes data.taskId = none := by
    rw [known] at hunknown
    split at hunknown
    · cases hunknown
    · next hsome => simpa using hsome
  have hfresh : s.statusOf data.taskId = none := by rw [statusOf, hnone]; rfl
  have hself : ({ s with redis := s.redis.enqueue data } : Pool Id Score).statusOf data.taskId =
      some .pending := by
    rw [statusOf, Redis.hashes_enqueue, Function.update_self]
    rfl
  have hother : ∀ id, id ≠ data.taskId →
      ({ s with redis := s.redis.enqueue data } : Pool Id Score).statusOf id = s.statusOf id := by
    intro id hid
    rw [statusOf, statusOf, Redis.hashes_enqueue, Function.update_of_ne hid]
  have hkeep : ∀ {id status}, s.statusOf id = some status →
      ({ s with redis := s.redis.enqueue data } : Pool Id Score).statusOf id = some status := by
    intro id status hid
    rw [hother id fun heq => by rw [heq, hfresh] at hid; cases hid]
    exact hid
  refine ⟨?_, hself, hfresh, hother⟩
  constructor
  case queued =>
    intro id hid
    by_cases heq : id = data.taskId
    · rw [heq, hself]
    · apply hkeep
      apply h.queued id
      rw [queuedIds, Redis.enqueue, keys_setItem] at hid
      split at hid
      · exact hid
      · exact (List.mem_append.mp hid).resolve_right fun hnew => heq (List.mem_singleton.mp hnew)
  case held => exact fun worker hmem id status hassumes => hkeep (h.held worker hmem id status hassumes)
  case late =>
    intro id status hmem
    obtain ⟨old, hold, hfollows⟩ := h.late id status hmem
    exact ⟨old, hkeep hold, hfollows⟩
  case targets => exact h.targets
  case ran => exact fun id hid => (h.ran id hid).imp hkeep hkeep
  case hasRun => exact h.hasRun
  case lateRun => exact h.lateRun
  case completed =>
    intro id hid
    by_cases heq : id = data.taskId
    · rw [heq, hself] at hid
      cases hid
    · rw [hother id heq] at hid
      exact h.completed id hid

theorem ordered_start {workerCount : ℕ} (h : Ordered s) (hstep : s.step (.start workerCount) = some s') :
    Ordered s' ∧ s'.statusOf = s.statusOf := by
  obtain rfl := Option.some.inj hstep
  have hnew : ∀ worker ∈ s.workers ++ List.replicate workerCount ({} : Worker Id Score),
      worker ∈ s.workers ∨ worker = {} := fun worker hmem =>
    (List.mem_append.mp hmem).imp_right List.eq_of_mem_replicate
  refine ⟨h.quiet (fun _ => rfl) (fun _ hid => hid) ?_ (fun _ hmem => .inl hmem) h.targets
    (fun _ hid => .inl hid) (fun _ hid => hid) ?_, rfl⟩
  · intro worker hmem id status hassumes
    rcases hnew worker hmem with hmem | rfl
    · exact h.held worker hmem id status hassumes
    · cases hassumes
  · intro worker hmem id hid
    rcases hnew worker hmem with hmem | rfl
    · exact h.hasRun worker hmem id hid
    · cases hid

theorem ordered_stop (h : Ordered s) (hstep : s.step .stop = some s') :
    Ordered s' ∧ s'.statusOf = s.statusOf := by
  obtain rfl := Option.some.inj hstep
  refine ⟨h.quiet (fun _ => rfl) (fun _ hid => hid) ?_ (fun _ hmem => .inl hmem) h.targets
    (fun _ hid => .inl hid) (fun _ hid => hid) ?_, rfl⟩
  · intro worker hmem id status hassumes
    obtain ⟨before, hbefore, rfl⟩ := List.mem_map.mp hmem
    exact h.held before hbefore id status hassumes
  · intro worker hmem id hid
    obtain ⟨before, hbefore, rfl⟩ := List.mem_map.mp hmem
    exact h.hasRun before hbefore id hid

omit [LinearOrder Id] [LinearOrder Score] in
/-- A worker that goes on with the same task, and writes nothing. -/
theorem Ordered.replace (h : Ordered s) (worker' : Worker Id Score) (hw : s.workers[w]? = some worker)
    (hworkers : s'.workers = s.workers.set w worker') (hstatus : s'.statusOf = s.statusOf)
    (hqueued : ∀ id ∈ s'.queuedIds, id ∈ s.queuedIds)
    (hassumes : ∀ id status, worker'.phase.assumes = some (id, status) → s.statusOf id = some status)
    (hlate : ∀ command ∈ s'.inFlight, command ∈ s.inFlight ∨ worker.phase.sent = some command)
    (htargets : (s'.inFlight.filterMap Command.target).Nodup)
    (hexecuted : ∀ id, id ∈ s'.executed → id ∈ s.executed ∨ s.statusOf id = some .running)
    (hmono : ∀ id ∈ s.executed, id ∈ s'.executed)
    (hrun : ∀ id, worker'.phase.hasRun = some id → id ∈ s'.executed) : Ordered s' := by
  refine h.quiet (fun id => by rw [hstatus]) hqueued ?_ ?_ htargets hexecuted hmono ?_
  · rw [hworkers]
    intro x hmem id status hx
    rcases mem_set hmem with rfl | ⟨j, -, hj⟩
    · exact hassumes id status hx
    · exact h.held x (List.mem_of_getElem? hj) id status hx
  · intro command hmem
    rcases hlate command hmem with hmem | hsent
    · exact .inl hmem
    · exact .inr ⟨worker, List.mem_of_getElem? hw, hsent⟩
  · rw [hworkers]
    intro x hmem id hx
    rcases mem_set hmem with rfl | ⟨j, -, hj⟩
    · exact hrun id hx
    · exact hmono id (h.hasRun x (List.mem_of_getElem? hj) id hx)

theorem ordered_resume (hinv : Inv s) (h : Ordered s) (hstep : s.step (.resume w) = some s') :
    Ordered s' ∧ s'.statusOf = s.statusOf := by
  obtain ⟨worker, phase, hw, hnext, rfl⟩ := resume_effect hstep
  have hmem := List.mem_of_getElem? hw
  obtain ⟨hassumes, hran⟩ := next_assumes (hinv.replies worker hmem) hnext
  have hbegun : ∀ id, phase.begun = some id → phase.assumes = some (id, .running) := by
    intro id hid
    cases phase with
    | simulating data =>
      cases hid
      rfl
    | _ => cases hid
  refine ⟨h.replace { worker with phase } hw rfl rfl (fun _ hid => hid) ?_
    (fun _ hmem => .inl hmem) h.targets ?_ (fun _ hid => List.mem_append_left _ hid) ?_, rfl⟩
  · intro id status hphase
    exact h.held worker hmem id status (hassumes ▸ hphase)
  · intro id hid
    rcases List.mem_append.mp hid with hold | hnew
    · exact .inl hold
    · refine .inr (h.held worker hmem id .running ?_)
      rw [← hassumes]
      exact hbegun id (Option.mem_toList.mp hnew)
  · intro id hid
    rcases hran id hid with hold | hnew
    · exact List.mem_append_left _ (h.hasRun worker hmem id hold)
    · exact List.mem_append_right _ (Option.mem_toList.mpr hnew)

theorem ordered_leave (hinv : Inv s) (h : Ordered s)
    (hstep : s.step (.fail w) = some s' ∨ s.step (.cancel w) = some s') :
    Ordered s' ∧ s'.statusOf = s.statusOf := by
  obtain ⟨worker, phase, hw, hphase, rfl⟩ := leave_effect hstep
  have hnothing : phase.assumes = none ∧ phase.hasRun = none := by
    rcases hphase with rfl | rfl
    · exact ⟨Phase.assumes_loopHead _, Phase.hasRun_loopHead _⟩
    · exact ⟨rfl, rfl⟩
  refine ⟨h.replace { worker with phase } hw rfl rfl (fun _ hid => hid) ?_ ?_ ?_
    (fun _ hid => .inl hid) (fun _ hid => hid) ?_, rfl⟩
  · intro id status hassumes
    rw [hnothing.1] at hassumes
    cases hassumes
  · intro command hmem
    exact (List.mem_append.mp hmem).imp_right Option.mem_toList.mp
  · show ((s.inFlight ++ worker.phase.sent.toList).filterMap Command.target).Nodup
    rw [List.filterMap_append, List.nodup_append]
    refine ⟨h.targets, ?_, ?_⟩
    · cases worker.phase.sent with
      | none => exact List.nodup_nil
      | some command =>
        cases command with
        | zpopmin => exact List.nodup_nil
        | hset id status => exact List.nodup_singleton id
    · intro id hid id' hid' heq
      obtain ⟨sent, hsent, htarget⟩ := List.mem_filterMap.mp hid'
      obtain ⟨command, hcommand, htarget'⟩ := List.mem_filterMap.mp hid
      rw [Option.mem_toList] at hsent
      cases sent with
      | zpopmin => cases htarget
      | hset id₁ status =>
        obtain rfl := Option.some.inj htarget
        cases command with
        | zpopmin => cases htarget'
        | hset id₂ status' =>
          obtain rfl := Option.some.inj htarget'
          rw [heq] at hcommand
          exact hinv.not_late_of_held hw (Phase.holds_of_sent hsent) status' hcommand
  · intro id hid
    rw [hnothing.2] at hid
    cases hid

omit [LinearOrder Score] in
/-- The worker that has the task in hand writes its status. -/
theorem ordered_hset (hinv : Inv s) (h : Ordered s) (hw : s.workers[w]? = some worker) {id : Id}
    {status : Status} {worker' : Worker Id Score} (hsent : worker.phase.sent = some (.hset id status))
    (hworkers : s'.workers = s.workers.set w worker')
    (hassumes : ∀ id' old, worker'.phase.assumes = some (id', old) → id' = id ∧ old = status)
    (hrun : ∀ id', worker'.phase.hasRun = some id' → worker.phase.hasRun = some id')
    (hredis : s'.redis = s.redis.hset id status) (hexecuted : s'.executed = s.executed)
    (hinFlight : s'.inFlight = s.inFlight) : Ordered s' ∧ Writes s s' id status := by
  have hmem := List.mem_of_getElem? hw
  have hholds := Phase.holds_of_sent hsent
  obtain ⟨old, hold, hfollows, hran⟩ := Phase.assumes_of_sent hsent
  obtain ⟨⟨hash, hhash⟩, -⟩ := hinv.of_held hw id hholds
  have hstatus := statusOf_hset hhash hredis
  have hwrites : Writes s s' id status := by
    refine ⟨⟨old, h.held worker hmem id old hold, hfollows⟩, ?_, fun id' hne => ?_⟩
    · rw [hstatus, if_pos rfl]
    · rw [hstatus, if_neg hne]
  refine ⟨h.write hwrites ?_ ?_ ?_ ?_ ?_ ?_ hexecuted ?_ ?_, hwrites⟩
  · rw [queuedIds_hset hredis]
    exact hinv.not_queued_of_held hw hholds
  · intro id' hid'
    rwa [queuedIds_hset hredis] at hid'
  · rw [hworkers]
    intro x hx id' old' hx'
    rcases mem_set hx with rfl | ⟨j, hj, hother⟩
    · obtain ⟨rfl, rfl⟩ := hassumes id' old' hx'
      exact hwrites.2.1
    · have hne : id' ≠ id := by
        intro heq
        apply hinv.not_held_by hw hholds hj hother
        rw [← heq]
        exact Phase.holds_of_assumes hx'
      rw [hwrites.2.2 id' hne]
      exact h.held x (List.mem_of_getElem? hother) id' old' hx'
  · rw [hinFlight]
    exact fun _ hin => hin
  · rw [hinFlight]
    exact fun status' => hinv.not_late_of_held hw hholds status'
  · rw [hinFlight]
    exact h.targets
  · rw [hworkers]
    intro x hx id' hx'
    rcases mem_set hx with rfl | ⟨j, -, hother⟩
    · exact h.hasRun worker hmem id' (hrun id' hx')
    · exact h.hasRun x (List.mem_of_getElem? hother) id' hx'
  · exact fun hcompleted => h.hasRun worker hmem id (hran hcompleted)

theorem ordered_serve (hinv : Inv s) (h : Ordered s) (hstep : s.step (.serve w) = some s') :
    Ordered s' ∧ (s'.statusOf = s.statusOf ∨ ∃ id status, Writes s s' id status) := by
  obtain ⟨⟨before, cancelling⟩, phase, hw, hserve, hworkers, hexecuted, hdropped, hinFlight⟩ :=
    serve_effect hstep
  have hkeep : ∀ id ∈ s.executed, id ∈ s'.executed := by
    rw [hexecuted]
    exact fun _ hid => hid
  have hback : ∀ id ∈ s'.executed, id ∈ s.executed ∨ s.statusOf id = some .running := by
    rw [hexecuted]
    exact fun _ hid => .inl hid
  have hsame : ∀ command ∈ s'.inFlight, command ∈ s.inFlight ∨
      (⟨before, cancelling⟩ : Worker Id Score).phase.sent = some command := by
    rw [hinFlight]
    exact fun _ hmem => .inl hmem
  obtain ⟨hphase, hredis, rfl⟩ | ⟨id, hphase, hredis, rfl⟩ | ⟨data, hphase, hredis, rfl⟩ |
    ⟨data, hphase, hredis, rfl⟩ := serveAt_cases hserve
  · have hstatus : s'.statusOf = s.statusOf := by
      funext id
      rw [statusOf, statusOf, hashes_pop hredis]
    refine ⟨h.replace _ hw hworkers hstatus (fun id => mem_queuedIds_pop hredis) ?_ hsame
      (hinFlight ▸ h.targets) hback hkeep (fun id hid => by cases hid), .inl hstatus⟩
    intro id status hassumes
    cases hpop : s.redis.zpopmin.2 with
    | none =>
      rw [hpop] at hassumes
      cases hassumes
    | some popped =>
      rw [hpop] at hassumes
      obtain ⟨rfl, rfl⟩ := Prod.mk.inj (Option.some.inj hassumes)
      exact h.queued _ (mem_queuedIds_of_popped hpop)
  · obtain rfl := hphase
    have hstatus : s'.statusOf = s.statusOf := by
      funext id'
      rw [statusOf, statusOf, hredis]
    refine ⟨h.replace _ hw hworkers hstatus ?_ ?_ hsame (hinFlight ▸ h.targets) hback hkeep
      (fun id hid => by cases hid), .inl hstatus⟩
    · intro id' hid'
      rwa [queuedIds, hredis] at hid'
    · exact fun id' status hassumes => h.held _ (List.mem_of_getElem? hw) id' status hassumes
  · obtain rfl := hphase
    obtain ⟨hordered, hwrites⟩ := ordered_hset hinv h hw rfl hworkers (fun id' old hassumes => by
      obtain ⟨rfl, rfl⟩ := Prod.mk.inj (Option.some.inj hassumes)
      exact ⟨rfl, rfl⟩) (fun id' hid' => by cases hid') hredis hexecuted hinFlight
    exact ⟨hordered, .inr ⟨_, _, hwrites⟩⟩
  · obtain rfl := hphase
    obtain ⟨hordered, hwrites⟩ := ordered_hset hinv h hw rfl hworkers
      (fun id' old hassumes => by cases hassumes) (fun id' hid' => hid') hredis hexecuted hinFlight
    exact ⟨hordered, .inr ⟨_, _, hwrites⟩⟩

theorem ordered_late {i : ℕ} (hinv : Inv s) (h : Ordered s) (hstep : s.step (.late i) = some s') :
    Ordered s' ∧ (s'.statusOf = s.statusOf ∨ ∃ id status, Writes s s' id status) := by
  have hsub : (s.inFlight.eraseIdx i).Sublist s.inFlight := List.eraseIdx_sublist _ _
  have htargets := h.targets.sublist (hsub.filterMap Command.target)
  obtain ⟨hcommand, rfl⟩ | ⟨id, status, hcommand, rfl⟩ := late_effect hstep
  · have hstatus : ({ s with
        inFlight := s.inFlight.eraseIdx i
        redis := s.redis.zpopmin.1
        dropped := s.dropped ++ s.redis.zpopmin.2.toList } : Pool Id Score).statusOf =
          s.statusOf := by
      funext id
      rw [statusOf, statusOf, Redis.hashes_zpopmin]
    refine ⟨h.quiet (fun id => by rw [hstatus]) (fun id => mem_queuedIds_pop rfl) h.held
      (fun command hmem => .inl (hsub.subset hmem)) htargets (fun _ hid => .inl hid)
      (fun _ hid => hid) h.hasRun, .inl hstatus⟩
  · have hmem := List.mem_of_getElem? hcommand
    have hdropped := hinv.late id status hmem
    obtain ⟨hash, hhash⟩ := hinv.of_dropped hdropped
    have hstatus : ∀ id', ({ s with
        inFlight := s.inFlight.eraseIdx i
        redis := s.redis.hset id status } : Pool Id Score).statusOf id' =
          if id' = id then some status else s.statusOf id' := statusOf_hset hhash rfl
    have hwrites : Writes s { s with
        inFlight := s.inFlight.eraseIdx i
        redis := s.redis.hset id status } id status := by
      refine ⟨h.late id status hmem, ?_, fun id' hne => ?_⟩
      · rw [hstatus, if_pos rfl]
      · rw [hstatus, if_neg hne]
    refine ⟨h.write hwrites ?_ (fun _ hid => hid) ?_ (fun _ hin => hsub.subset hin) ?_ htargets rfl
      h.hasRun ?_, .inr ⟨id, status, hwrites⟩⟩
    · exact hinv.not_queued_of_dropped hdropped
    · intro x hx id' old hassumes
      have hne : id' ≠ id := by
        intro heq
        apply hinv.not_held_of_dropped hdropped hx
        rw [← heq]
        exact Phase.holds_of_assumes hassumes
      rw [hwrites.2.2 id' hne]
      exact h.held x hx id' old hassumes
    · -- the command that was executed was the only one for the task
      intro status' hin
      have hsplit : s.inFlight = s.inFlight.take i ++ .hset id status :: s.inFlight.drop (i + 1) := by
        obtain ⟨hi, heq⟩ := List.getElem?_eq_some_iff.mp hcommand
        rw [← heq, ← List.drop_eq_getElem_cons hi, List.take_append_drop]
      have hnodup := h.targets
      rw [hsplit, List.filterMap_append] at hnodup
      change (_ ++ id :: (s.inFlight.drop (i + 1)).filterMap Command.target).Nodup at hnodup
      have hnot := (List.nodup_middle.mp hnodup).notMem
      apply hnot
      rw [← List.filterMap_append, ← List.eraseIdx_eq_take_drop_succ]
      exact List.mem_filterMap.mpr ⟨_, hin, rfl⟩
    · intro hcompleted
      rw [hcompleted] at hmem
      exact h.lateRun id hmem

/-- What a step does to the statuses. -/
theorem status_effect {a : Action Id Score} (hinv : Inv s) (h : Ordered s)
    (hstep : s.step a = some s') : Ordered s' ∧ (s'.statusOf = s.statusOf ∨
      (∃ data, a = .enqueue data ∧ s.statusOf data.taskId = none ∧
        s'.statusOf data.taskId = some .pending ∧
        ∀ id, id ≠ data.taskId → s'.statusOf id = s.statusOf id) ∨
      ∃ id status, Writes s s' id status) := by
  cases a with
  | enqueue data =>
    obtain ⟨hordered, hself, hfresh, hother⟩ := ordered_enqueue h hstep
    exact ⟨hordered, .inr (.inl ⟨data, rfl, hfresh, hself, hother⟩)⟩
  | start workerCount => exact (ordered_start h hstep).imp_right .inl
  | stop => exact (ordered_stop h hstep).imp_right .inl
  | serve w => exact (ordered_serve hinv h hstep).imp_right (Or.imp_right .inr)
  | resume w => exact (ordered_resume hinv h hstep).imp_right .inl
  | fail w => exact (ordered_leave hinv h (.inl hstep)).imp_right .inl
  | cancel w => exact (ordered_leave hinv h (.inr hstep)).imp_right .inl
  | late i => exact (ordered_late hinv h hstep).imp_right (Or.imp_right .inr)

theorem ordered_step {a : Action Id Score} (hstep : s.step a = some s') (hs : Inv s ∧ Ordered s) :
    Inv s' ∧ Ordered s' :=
  ⟨inv_step hstep hs.1, (status_effect hs.1 hs.2 hstep).1⟩

omit [LinearOrder Id] [LinearOrder Score] in
theorem ordered_empty : Ordered ({} : Pool Id Score) where
  queued _ h := nomatch h
  held _ h := nomatch h
  late _ _ h := nomatch h
  targets := List.nodup_nil
  ran _ h := nomatch h
  hasRun _ h := nomatch h
  lateRun _ h := nomatch h
  completed _ h := nomatch h

/-! ## Along a run -/

/-- How far a task has come. -/
def progress : Option Status → ℕ
  | none => 0
  | some .pending => 1
  | some .running => 2
  | some .completed => 3

omit [LinearOrder Id] [LinearOrder Score] in
theorem progress_of_writes {id : Id} {status : Status} (h : Writes s s' id status) (id' : Id) :
    s'.statusOf id' = s.statusOf id' ∨ progress (s'.statusOf id') = progress (s.statusOf id') + 1 := by
  obtain ⟨⟨old, hold, hfollows⟩, hnew, hother⟩ := h
  by_cases heq : id' = id
  · rw [heq, hold, hnew]
    cases hfollows
    · exact .inr rfl
    · exact .inr rfl
  · exact .inl (hother id' heq)

/-- A step takes a task one status further, if it does anything to its status. -/
theorem progress_step {a : Action Id Score} (hinv : Inv s) (h : Ordered s) (hstep : s.step a = some s')
    (id : Id) :
    s'.statusOf id = s.statusOf id ∨ progress (s'.statusOf id) = progress (s.statusOf id) + 1 := by
  obtain ⟨-, hsame | ⟨data, -, hfresh, hself, hother⟩ | ⟨id', status, hwrites⟩⟩ :=
    status_effect hinv h hstep
  · exact .inl (by rw [hsame])
  · by_cases heq : id = data.taskId
    · rw [heq, hfresh, hself]
      exact .inr rfl
    · exact .inl (hother id heq)
  · exact progress_of_writes hwrites id

theorem progress_run {actions : List (Action Id Score)} (hs : Inv s ∧ Ordered s)
    (h : Runs s actions s') (id : Id) : progress (s.statusOf id) ≤ progress (s'.statusOf id) := by
  induction h with
  | nil s => exact le_rfl
  | cons hstep _ ih =>
    refine le_trans ?_ (ih (ordered_step hstep hs))
    rcases progress_step hs.1 hs.2 hstep id with hsame | hnext
    · rw [hsame]
    · omega

/-- In every run of the pool, whatever its workers, failures and late commands, a task is pending, then
running, then completed, and leaves out none of these; it is marked running before it is executed and
completed only after that. -/
theorem status_moves_forward {actions actions' : List (Action Id Score)} {s t : Pool Id Score}
    (h : Runs {} actions s) (h' : Runs s actions' t) :
    (∀ id, progress (s.statusOf id) ≤ progress (t.statusOf id)) ∧
      (∀ a t', t.step a = some t' → ∀ id, t'.statusOf id = t.statusOf id ∨
        progress (t'.statusOf id) = progress (t.statusOf id) + 1) ∧
      (∀ id ∈ t.executed, t.statusOf id = some .running ∨ t.statusOf id = some .completed) ∧
      ∀ id, t.statusOf id = some .completed → id ∈ t.executed := by
  have hs : Inv s ∧ Ordered s :=
    h.preserves (P := fun s => Inv s ∧ Ordered s) (fun _ _ _ => ordered_step) ⟨inv_empty, ordered_empty⟩
  have ht : Inv t ∧ Ordered t :=
    h'.preserves (P := fun s => Inv s ∧ Ordered s) (fun _ _ _ => ordered_step) hs
  exact ⟨progress_run hs h', fun a t' hstep => progress_step ht.1 ht.2 hstep, ht.2.ran, ht.2.completed⟩

end Steps

/-- One worker takes one task to its end. -/
def oneTask : List (Action ℕ ℕ) :=
  [.enqueue resize, .start 1, .resume 0, .serve 0, .resume 0, .serve 0, .resume 0, .serve 0, .resume 0,
    .resume 0, .serve 0]

def poolDone : Pool ℕ ℕ where
  redis := ⟨[], Function.update (Function.update (Function.update (fun _ => none) 7
    (some ⟨some resize, .pending⟩)) 7 (some ⟨some resize, .running⟩)) 7
    (some ⟨some resize, .completed⟩)⟩
  workers := [⟨.completing resize true, false⟩]
  running := true
  executed := [7]

theorem oneTask_runs : Runs {} oneTask poolDone := run_of_exec rfl

theorem status_moves_forward_oneTask : 7 ∈ poolDone.executed :=
  (status_moves_forward (.nil _) oneTask_runs).2.2.2 7 rfl

end Pool

end Chronoq.Demo
