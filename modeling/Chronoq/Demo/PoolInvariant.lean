import Chronoq.Demo.WorkerPool

/-! # The invariant of the worker pool

A task that has been enqueued is in the sorted set, in the hands of one worker, marked completed, or
dropped. `Inv.tokens` counts it in all of these places at once: a pop takes it from the sorted set to a
worker, the mark takes it from the worker, and an `await` that raises in between drops it. `Inv.once` counts
the task where it has been executed and where it still waits for that.

* `Inv.move`, `Inv.keep`: a step keeps the invariant if the counts that it changes agree.
* `serve_effect`, `resume_effect`, `leave_effect`, `late_effect`: what a step of a worker can do.
* `inv_step`: every step keeps the invariant. -/

namespace Chronoq.Demo
open Foundations

set_option autoImplicit false

namespace Pool
variable {Id Score : Type}

def queuedIds (s : Pool Id Score) : List Id := s.redis.queue.map Prod.fst

def heldIds (s : Pool Id Score) : List Id := s.workers.filterMap fun worker => worker.phase.holds

def waitingIds (s : Pool Id Score) : List Id := s.workers.filterMap fun worker => worker.phase.toRun

def statusOf (s : Pool Id Score) (id : Id) : Option Status := (s.redis.hashes id).map TaskHash.status

/-- `1` for a task that has been enqueued. -/
def known (s : Pool Id Score) (id : Id) : ℕ := if (s.redis.hashes id).isSome then 1 else 0

/-- The hash that a phase has read is that of the task it has popped. -/
def ReplyMatches : Phase Id Score → Prop
  | .loading id (some reply) => ∃ hash data, reply = some hash ∧ hash.data = some data ∧ data.taskId = id
  | _ => True

theorem replyMatches_loopHead (running : Bool) :
    ReplyMatches (.loopHead running : Phase Id Score) := by
  cases running <;> trivial

theorem known_le_one (s : Pool Id Score) (id : Id) : s.known id ≤ 1 := by
  rw [known]
  split <;> omega

theorem exists_hash_of_known {s : Pool Id Score} {id : Id} (h : 1 ≤ s.known id) :
    ∃ hash, s.redis.hashes id = some hash := by
  rw [known] at h
  split at h
  · next hsome => exact Option.isSome_iff_exists.mp hsome
  · omega

variable [DecidableEq Id]

/-- `1` for a task that is marked completed or dropped. -/
def settled (s : Pool Id Score) (id : Id) : ℕ :=
  if s.statusOf id = some .completed ∨ id ∈ s.dropped then 1 else 0

theorem settled_le_one (s : Pool Id Score) (id : Id) : s.settled id ≤ 1 := by
  rw [settled]
  split <;> omega

structure Inv (s : Pool Id Score) : Prop where
  /-- a known task is in one place, and any other in none -/
  tokens : ∀ id, s.queuedIds.count id + s.heldIds.count id + s.settled id = s.known id
  /-- a task is executed at most once, and not while it waits -/
  once : ∀ id, s.executed.count id + s.queuedIds.count id + s.waitingIds.count id ≤ s.known id
  hashes : ∀ id hash, s.redis.hashes id = some hash → ∃ data, hash.data = some data ∧ data.taskId = id
  replies : ∀ worker ∈ s.workers, ReplyMatches worker.phase
  late : ∀ id status, Command.hset id status ∈ s.inFlight → id ∈ s.dropped

end Pool

/-! ## The commands of Redis -/

namespace Redis
variable {Id Score : Type}

section Hashes
variable [DecidableEq Id]

theorem count_enqueue (r : Redis Id Score) (data : TaskData Id Score) (id : Id)
    (hnew : data.taskId ∉ r.queue.map Prod.fst) :
    ((r.enqueue data).queue.map Prod.fst).count id =
      (r.queue.map Prod.fst).count id + if data.taskId = id then 1 else 0 := by
  rw [enqueue, keys_setItem, if_neg hnew, List.count_append, List.count_singleton]
  simp

theorem hashes_enqueue (r : Redis Id Score) (data : TaskData Id Score) :
    (r.enqueue data).hashes = Function.update r.hashes data.taskId (some ⟨some data, .pending⟩) := rfl

theorem hashes_hset {r : Redis Id Score} {id : Id} {status : Status} {hash : TaskHash Id Score}
    (h : r.hashes id = some hash) :
    (r.hset id status).hashes = Function.update r.hashes id (some ⟨hash.data, status⟩) := by
  rw [hset, h]
  rfl

end Hashes

variable [LinearOrder Id] [LinearOrder Score]

@[simp] theorem hashes_zpopmin (r : Redis Id Score) : r.zpopmin.1.hashes = r.hashes := by
  rw [zpopmin]
  split <;> rfl

/-- What is popped has left the sorted set. -/
theorem count_zpopmin (r : Redis Id Score) (id : Id) :
    (r.zpopmin.1.queue.map Prod.fst).count id + r.zpopmin.2.toList.count id =
      (r.queue.map Prod.fst).count id := by
  rw [zpopmin]
  split
  · simp
  · next item rest hleast =>
    have hperm := ((extractLeast_perm _ hleast).map Prod.fst).count_eq id
    rw [hperm, List.map_cons, List.count_cons, Option.toList_some, List.count_singleton]

end Redis

/-! ## What a step does to the counts -/

namespace Phase
variable {Id Score : Type}

@[simp] theorem holds_loopHead (running : Bool) : (loopHead running : Phase Id Score).holds = none := by
  cases running <;> rfl

@[simp] theorem toRun_loopHead (running : Bool) : (loopHead running : Phase Id Score).toRun = none := by
  cases running <;> rfl

@[simp] theorem holds_popping (reply : Option Id) :
    (popping (some reply) : Phase Id Score).holds = reply := by
  cases reply <;> rfl

@[simp] theorem toRun_popping (reply : Option Id) :
    (popping (some reply) : Phase Id Score).toRun = reply := by
  cases reply <;> rfl

theorem holds_of_sent {phase : Phase Id Score} {id : Id} {status : Status}
    (h : phase.sent = some (.hset id status)) : phase.holds = some id := by
  unfold sent at h
  split at h
  all_goals cases h
  all_goals rfl

end Phase

namespace Pool

/-- What a worker has in hand stays there when an `await` returns, up to the end of the task; and a task
that no longer waits has begun. -/
theorem next_counts {Id Score : Type} [DecidableEq Id] {running : Bool} {phase phase' : Phase Id Score}
    (hmatches : ReplyMatches phase) (h : phase.next running = some phase') :
    phase'.holds = phase.holds ∧ ReplyMatches phase' ∧
      ∀ id, phase'.begun.toList.count id + phase'.toRun.toList.count id =
        phase.toRun.toList.count id := by
  have hhead : (Phase.loopHead running : Phase Id Score).begun = none := by
    cases running <;> rfl
  unfold Phase.next at h
  split at h
  all_goals cases h
  case h_1 | h_6 | h_9 =>
    refine ⟨Phase.holds_loopHead _, replyMatches_loopHead _, fun id => ?_⟩
    rw [hhead, Phase.toRun_loopHead]
    rfl
  case h_2 | h_3 | h_8 => exact ⟨rfl, trivial, fun _ => Nat.zero_add _⟩
  case h_4 =>
    obtain ⟨hash, data, hreply, -⟩ := hmatches
    cases hreply
  case h_5 =>
    obtain ⟨hash, data, hreply, hdata, rfl⟩ := hmatches
    cases hreply
    rw [hdata]
    exact ⟨rfl, trivial, fun _ => Nat.zero_add _⟩
  case h_7 => exact ⟨rfl, trivial, fun _ => rfl⟩

variable {Id Score : Type} {s : Pool Id Score} {w : ℕ} {worker : Worker Id Score}

theorem known_congr {s' : Pool Id Score} {id : Id}
    (hhashes : s'.redis.hashes id = s.redis.hashes id) : s'.known id = s.known id := by
  rw [known, known, hhashes]

section Counts
variable [DecidableEq Id]

theorem count_held_set (hw : s.workers[w]? = some worker) (worker' : Worker Id Score) (id : Id) :
    ((s.workers.set w worker').filterMap fun worker => worker.phase.holds).count id +
        worker.phase.holds.toList.count id =
      s.heldIds.count id + worker'.phase.holds.toList.count id :=
  count_filterMap_set hw worker' id

theorem count_waiting_set (hw : s.workers[w]? = some worker) (worker' : Worker Id Score) (id : Id) :
    ((s.workers.set w worker').filterMap fun worker => worker.phase.toRun).count id +
        worker.phase.toRun.toList.count id =
      s.waitingIds.count id + worker'.phase.toRun.toList.count id :=
  count_filterMap_set hw worker' id

theorem replies_set (h : Inv s) {worker' : Worker Id Score} (hmatches : ReplyMatches worker'.phase) :
    ∀ worker ∈ s.workers.set w worker', ReplyMatches worker.phase := by
  intro worker hmem
  rcases List.mem_or_eq_of_mem_set hmem with hmem | rfl
  · exact h.replies worker hmem
  · exact hmatches

theorem one_le_held (hw : s.workers[w]? = some worker) {id : Id} (hid : worker.phase.holds = some id) :
    1 ≤ s.heldIds.count id :=
  List.count_pos_iff.mpr (exists_holder_iff.mpr ⟨w, worker, hw, hid⟩)

/-- A task in the hands of a worker has a hash, and is neither completed nor dropped. -/
theorem Inv.of_held (h : Inv s) (hw : s.workers[w]? = some worker) (id : Id)
    (hid : worker.phase.holds = some id) :
    (∃ hash, s.redis.hashes id = some hash) ∧ s.settled id = 0 := by
  have hheld := one_le_held hw hid
  have htokens := h.tokens id
  have hknown := known_le_one s id
  exact ⟨exists_hash_of_known (by omega), by omega⟩

theorem settled_eq_one_iff {id : Id} :
    s.settled id = 1 ↔ s.statusOf id = some .completed ∨ id ∈ s.dropped := by
  rw [settled]
  split
  · next h => simp [h]
  · next h => simp [h]

theorem settled_of_mem {id : Id} (h : id ∈ s.dropped) : s.settled id = 1 := if_pos (.inr h)

theorem Inv.of_dropped (h : Inv s) {id : Id} (hid : id ∈ s.dropped) :
    ∃ hash, s.redis.hashes id = some hash := by
  have htokens := h.tokens id
  have hsettled := settled_of_mem hid
  exact exists_hash_of_known (by omega)

/-- A step that sets one worker keeps the invariant if it does so for the counts of that worker. -/
theorem Inv.move (h : Inv s) (hw : s.workers[w]? = some worker) {s' : Pool Id Score}
    {worker' : Worker Id Score} (hworkers : s'.workers = s.workers.set w worker')
    (hknown : ∀ id, s'.known id = s.known id)
    (htokens : ∀ id, s'.queuedIds.count id + worker'.phase.holds.toList.count id + s'.settled id =
      s.queuedIds.count id + worker.phase.holds.toList.count id + s.settled id)
    (honce : ∀ id, s'.executed.count id + s'.queuedIds.count id +
        worker'.phase.toRun.toList.count id ≤
      s.executed.count id + s.queuedIds.count id + worker.phase.toRun.toList.count id)
    (hhashes : ∀ id hash, s'.redis.hashes id = some hash →
      ∃ data, hash.data = some data ∧ data.taskId = id)
    (hmatches : ReplyMatches worker'.phase)
    (hlate : ∀ id status, Command.hset id status ∈ s'.inFlight → id ∈ s'.dropped) : Inv s' := by
  refine ⟨fun id => ?_, fun id => ?_, hhashes, ?_, hlate⟩
  · have hset := count_held_set hw worker' id
    have hbefore := h.tokens id
    have hafter := htokens id
    rw [hknown, heldIds, hworkers]
    omega
  · have hset := count_waiting_set hw worker' id
    have hbefore := h.once id
    have hafter := honce id
    rw [hknown, waitingIds, hworkers]
    omega
  · rw [hworkers]
    exact replies_set h hmatches

/-- A step that leaves the workers' hands as they are keeps the invariant if the other counts agree. -/
theorem Inv.keep (h : Inv s) {s' : Pool Id Score} (hheld : s'.heldIds = s.heldIds)
    (hwaiting : s'.waitingIds = s.waitingIds)
    (htokens : ∀ id, s'.queuedIds.count id + s'.settled id + s.known id =
      s.queuedIds.count id + s.settled id + s'.known id)
    (honce : ∀ id, s'.executed.count id + s'.queuedIds.count id + s.known id ≤
      s.executed.count id + s.queuedIds.count id + s'.known id)
    (hhashes : ∀ id hash, s'.redis.hashes id = some hash →
      ∃ data, hash.data = some data ∧ data.taskId = id)
    (hreplies : ∀ worker ∈ s'.workers, ReplyMatches worker.phase)
    (hlate : ∀ id status, Command.hset id status ∈ s'.inFlight → id ∈ s'.dropped) : Inv s' := by
  refine ⟨fun id => ?_, fun id => ?_, hhashes, hreplies, hlate⟩
  · have hbefore := h.tokens id
    have hafter := htokens id
    rw [hheld]
    omega
  · have hbefore := h.once id
    have hafter := honce id
    rw [hwaiting]
    omega

theorem settled_congr {s' : Pool Id Score} {id : Id} (hstatus : s'.statusOf id = s.statusOf id)
    (hdropped : s'.dropped = s.dropped) : s'.settled id = s.settled id := by
  rw [settled, settled, hstatus, hdropped]

end Counts

/-! ## Writing a status -/

section Hset
variable [DecidableEq Id] {id : Id} {status : Status} {hash : TaskHash Id Score}

theorem known_hset {s' : Pool Id Score} (hhash : s.redis.hashes id = some hash)
    (hredis : s'.redis = s.redis.hset id status) (id' : Id) : s'.known id' = s.known id' := by
  rw [known, known, hredis, Redis.hashes_hset hhash, Function.update_apply]
  split
  · next heq => rw [heq, hhash]; rfl
  · rfl

theorem statusOf_hset {s' : Pool Id Score} (hhash : s.redis.hashes id = some hash)
    (hredis : s'.redis = s.redis.hset id status) (id' : Id) :
    s'.statusOf id' = if id' = id then some status else s.statusOf id' := by
  rw [statusOf, statusOf, hredis, Redis.hashes_hset hhash, Function.update_apply]
  split <;> rfl

theorem settled_hset {s' : Pool Id Score} (hhash : s.redis.hashes id = some hash)
    (hredis : s'.redis = s.redis.hset id status) (hdropped : s'.dropped = s.dropped) (id' : Id) :
    s'.settled id' =
      if id' = id then if status = .completed ∨ id ∈ s.dropped then 1 else 0 else s.settled id' := by
  rw [settled, statusOf_hset hhash hredis, hdropped]
  split
  · next heq => simp only [heq, Option.some_inj]
  · rfl

theorem not_mem_dropped {id : Id} (h : s.settled id = 0) : id ∉ s.dropped := by
  intro hmem
  rw [settled, if_pos (.inr hmem)] at h
  cases h

/-- Tasks that are not settled become so when they are dropped. -/
theorem settled_drop {s' : Pool Id Score} {o : Option Id} {id : Id}
    (hstatus : s'.statusOf id = s.statusOf id) (hdropped : s'.dropped = s.dropped ++ o.toList)
    (ho : ∀ id, o = some id → s.settled id = 0) :
    s'.settled id = o.toList.count id + s.settled id := by
  cases o with
  | none =>
    rw [settled_congr hstatus (by rw [hdropped]; exact List.append_nil _)]
    exact (Nat.zero_add _).symm
  | some b =>
    rw [Option.toList_some] at hdropped ⊢
    by_cases hid : id = b
    · have hmem : id ∈ s'.dropped := by
        rw [hdropped, hid]
        exact List.mem_append_right _ (List.mem_singleton_self b)
      rw [settled_of_mem hmem, hid, List.count_singleton_self, ho b rfl]
    · have hmem : id ∈ s.dropped ++ [b] ↔ id ∈ s.dropped := by simp [hid]
      rw [List.count_singleton, if_neg (by simpa using Ne.symm hid), Nat.zero_add, settled, settled,
        hstatus, hdropped]
      simp only [hmem]

theorem hashes_hset (h : Inv s) {s' : Pool Id Score} (hhash : s.redis.hashes id = some hash)
    (hredis : s'.redis = s.redis.hset id status) (id' : Id) (hash' : TaskHash Id Score)
    (hhash' : s'.redis.hashes id' = some hash') :
    ∃ data, hash'.data = some data ∧ data.taskId = id' := by
  rw [hredis, Redis.hashes_hset hhash, Function.update_apply] at hhash'
  split at hhash'
  · next heq =>
    obtain rfl := Option.some.inj hhash'
    obtain ⟨data, hdata, hid⟩ := h.hashes id hash hhash
    exact ⟨data, hdata, hid.trans heq.symm⟩
  · exact h.hashes id' hash' hhash'

theorem queuedIds_hset {s' : Pool Id Score} (hredis : s'.redis = s.redis.hset id status) :
    s'.queuedIds = s.queuedIds := by
  rw [queuedIds, hredis]
  rfl

end Hset

/-! ## Enqueueing -/

section Enqueue
variable [DecidableEq Id] {s' : Pool Id Score} {data : TaskData Id Score}

theorem known_enqueue (hunknown : s.known data.taskId = 0) (hredis : s'.redis = s.redis.enqueue data)
    (id : Id) : s'.known id = s.known id + if data.taskId = id then 1 else 0 := by
  rw [known, hredis, Redis.hashes_enqueue, Function.update_apply]
  by_cases hid : data.taskId = id
  · rw [if_pos hid.symm, if_pos hid, ← hid, hunknown]
    rfl
  · rw [if_neg (Ne.symm hid), if_neg hid, Nat.add_zero, known]

/-- A new task is pending. -/
theorem settled_enqueue (hzero : s.settled data.taskId = 0) (hredis : s'.redis = s.redis.enqueue data)
    (hdropped : s'.dropped = s.dropped) (id : Id) : s'.settled id = s.settled id := by
  by_cases hid : id = data.taskId
  · have hstatus : s'.statusOf data.taskId = some .pending := by
      rw [statusOf, hredis, Redis.hashes_enqueue, Function.update_self]
      rfl
    rw [hid, hzero, settled, hstatus, hdropped, if_neg (by simp [not_mem_dropped hzero])]
  · refine settled_congr ?_ hdropped
    rw [statusOf, statusOf, hredis, Redis.hashes_enqueue, Function.update_of_ne hid]

end Enqueue

/-! ## What every step preserves -/

section Steps
variable [LinearOrder Id] [LinearOrder Score] {s' : Pool Id Score}

theorem serveAt_cases {r r' : Redis Id Score} {phase phase' : Phase Id Score}
    (h : serveAt r phase = some (r', phase')) :
    (phase = .popping none ∧ r' = r.zpopmin.1 ∧ phase' = .popping (some r.zpopmin.2)) ∨
      (∃ id, phase = .loading id none ∧ r' = r ∧ phase' = .loading id (some (r.hashes id))) ∨
      (∃ data, phase = .marking data false ∧ r' = r.hset data.taskId .running ∧
        phase' = .marking data true) ∨
      ∃ data, phase = .completing data false ∧ r' = r.hset data.taskId .completed ∧
        phase' = .completing data true := by
  unfold serveAt at h
  split at h
  · cases h
    exact .inl ⟨rfl, rfl, rfl⟩
  · cases h
    exact .inr (.inl ⟨_, rfl, rfl, rfl⟩)
  · cases h
    exact .inr (.inr (.inl ⟨_, rfl, rfl, rfl⟩))
  · cases h
    exact .inr (.inr (.inr ⟨_, rfl, rfl, rfl⟩))
  · cases h

theorem hashes_pop (hredis : s'.redis = s.redis.zpopmin.1) : s'.redis.hashes = s.redis.hashes := by
  rw [hredis, Redis.hashes_zpopmin]

theorem count_pop (hredis : s'.redis = s.redis.zpopmin.1) (id : Id) :
    s'.queuedIds.count id + s.redis.zpopmin.2.toList.count id = s.queuedIds.count id := by
  rw [queuedIds, hredis]
  exact Redis.count_zpopmin s.redis id

theorem enqueue_effect {data : TaskData Id Score} (hstep : s.step (.enqueue data) = some s') :
    s.known data.taskId = 0 ∧ s' = { s with redis := s.redis.enqueue data } := by
  rw [step] at hstep
  split at hstep
  · cases hstep
  · next hnew => exact ⟨if_neg hnew, (Option.some.inj hstep).symm⟩

theorem serve_effect (hstep : s.step (.serve w) = some s') :
    ∃ worker phase, s.workers[w]? = some worker ∧
      serveAt s.redis worker.phase = some (s'.redis, phase) ∧
      s'.workers = s.workers.set w { worker with phase } ∧ s'.executed = s.executed ∧
      s'.dropped = s.dropped ∧ s'.inFlight = s.inFlight := by
  rw [step] at hstep
  obtain ⟨worker, hw, hstep⟩ := Option.bind_eq_some_iff.mp hstep
  obtain ⟨⟨redis, phase⟩, hserve, hstep⟩ := Option.bind_eq_some_iff.mp hstep
  obtain rfl := Option.some.inj hstep
  exact ⟨worker, phase, hw, hserve, rfl, rfl, rfl, rfl⟩

theorem resume_effect (hstep : s.step (.resume w) = some s') :
    ∃ worker phase, s.workers[w]? = some worker ∧ worker.phase.next s.running = some phase ∧
      s' = { s with executed := s.executed ++ phase.begun.toList }.setWorker w
        { worker with phase } := by
  obtain ⟨worker, hw, hstep⟩ := Option.bind_eq_some_iff.mp hstep
  split at hstep
  · cases hstep
  · obtain ⟨phase, hnext, hstep⟩ := Option.bind_eq_some_iff.mp hstep
    exact ⟨worker, phase, hw, hnext, (Option.some.inj hstep).symm⟩

/-- An `await` that raises is left for the loop head, or for good. -/
theorem leave_effect (hstep : s.step (.fail w) = some s' ∨ s.step (.cancel w) = some s') :
    ∃ worker phase, s.workers[w]? = some worker ∧ (phase = .loopHead s.running ∨ phase = .ended) ∧
      s' = (s.interrupt worker.phase).setWorker w { worker with phase } := by
  rcases hstep with hstep | hstep
  · obtain ⟨worker, hw, hstep⟩ := Option.bind_eq_some_iff.mp hstep
    split at hstep
    · cases hstep
    · cases hstep
    · exact ⟨worker, _, hw, .inl rfl, (Option.some.inj hstep).symm⟩
  · obtain ⟨worker, hw, hstep⟩ := Option.bind_eq_some_iff.mp hstep
    split at hstep
    · cases hstep
    · split at hstep
      · exact ⟨worker, _, hw, .inr rfl, (Option.some.inj hstep).symm⟩
      · cases hstep

theorem late_effect {i : ℕ} (hstep : s.step (.late i) = some s') :
    (s.inFlight[i]? = some .zpopmin ∧ s' = { s with
        inFlight := s.inFlight.eraseIdx i
        redis := s.redis.zpopmin.1
        dropped := s.dropped ++ s.redis.zpopmin.2.toList }) ∨
      ∃ id status, s.inFlight[i]? = some (.hset id status) ∧ s' = { s with
        inFlight := s.inFlight.eraseIdx i
        redis := s.redis.hset id status } := by
  obtain ⟨command, hcommand, hstep⟩ := Option.bind_eq_some_iff.mp hstep
  cases command with
  | zpopmin => exact .inl ⟨hcommand, (Option.some.inj hstep).symm⟩
  | hset id status => exact .inr ⟨id, status, hcommand, (Option.some.inj hstep).symm⟩

omit [LinearOrder Score] in
/-- A worker that writes the status of the task in its hands gives it up with the mark `completed`. -/
theorem inv_hset (h : Inv s) (hw : s.workers[w]? = some worker) {worker' : Worker Id Score} {id : Id}
    {status : Status} (hworkers : s'.workers = s.workers.set w worker')
    (hholds : worker.phase.holds = some id)
    (hholds' : worker'.phase.holds = if status = .completed then none else some id)
    (htoRun : worker'.phase.toRun = worker.phase.toRun) (hmatches : ReplyMatches worker'.phase)
    (hredis : s'.redis = s.redis.hset id status) (hexecuted : s'.executed = s.executed)
    (hdropped : s'.dropped = s.dropped) (hinFlight : s'.inFlight = s.inFlight) : Inv s' := by
  obtain ⟨⟨hash, hhash⟩, hsettled⟩ := h.of_held hw id hholds
  refine h.move hw hworkers (known_hset hhash hredis) (fun id' => ?_) (fun id' => ?_)
    (hashes_hset h hhash hredis) hmatches (by rw [hinFlight, hdropped]; exact h.late)
  · rw [queuedIds_hset hredis, settled_hset hhash hredis hdropped, hholds, hholds', Option.toList_some]
    by_cases hid : id' = id
    · rw [if_pos hid, hid, hsettled, List.count_singleton_self]
      by_cases hcompleted : status = .completed
      · rw [if_pos hcompleted, if_pos (.inl hcompleted)]
        rfl
      · rw [if_neg hcompleted, if_neg (by simp [hcompleted, not_mem_dropped hsettled]),
          Option.toList_some, List.count_singleton_self]
    · have hnone : [id].count id' = 0 := List.count_eq_zero.mpr (by simp [hid])
      rw [if_neg hid, hnone]
      split
      · rfl
      · rw [Option.toList_some, hnone]
  · rw [queuedIds_hset hredis, hexecuted, htoRun]

theorem inv_serve (h : Inv s) (hstep : s.step (.serve w) = some s') : Inv s' := by
  obtain ⟨⟨before, cancelling⟩, phase, hw, hserve, hworkers, hexecuted, hdropped, hinFlight⟩ :=
    serve_effect hstep
  have hlate : ∀ id status, Command.hset id status ∈ s'.inFlight → id ∈ s'.dropped := by
    rw [hinFlight, hdropped]
    exact h.late
  obtain ⟨hphase, hredis, rfl⟩ | ⟨id, hphase, hredis, rfl⟩ | ⟨data, hphase, hredis, rfl⟩ |
    ⟨data, hphase, hredis, rfl⟩ := serveAt_cases hserve
  · obtain rfl := hphase
    have hhashes := hashes_pop hredis
    have hsettled : ∀ id, s'.settled id = s.settled id := fun id =>
      settled_congr (by rw [statusOf, statusOf, hhashes]) hdropped
    refine h.move hw hworkers (fun id => known_congr (by rw [hhashes])) (fun id => ?_)
      (fun id => ?_) (by rw [hhashes]; exact h.hashes) trivial hlate
    · have hcount := count_pop hredis id
      rw [Phase.holds_popping, hsettled]
      change _ = s.queuedIds.count id + 0 + s.settled id
      omega
    · have hcount := count_pop hredis id
      rw [Phase.toRun_popping, hexecuted]
      change _ ≤ s.executed.count id + s.queuedIds.count id + 0
      omega
  · obtain rfl := hphase
    obtain ⟨⟨hash, hhash⟩, -⟩ := h.of_held hw id rfl
    obtain ⟨data, hdata, hid⟩ := h.hashes id hash hhash
    have hqueued : s'.queuedIds = s.queuedIds := by rw [queuedIds, queuedIds, hredis]
    refine h.move hw hworkers (fun id => known_congr (by rw [hredis])) (fun id => ?_) (fun id => ?_)
      (by rw [hredis]; exact h.hashes) ⟨hash, data, hhash, hdata, hid⟩ hlate
    · rw [hqueued, settled_congr (by rw [statusOf, statusOf, hredis]) hdropped]
      rfl
    · rw [hqueued, hexecuted]
      exact le_rfl
  · obtain rfl := hphase
    exact inv_hset h hw hworkers rfl rfl rfl trivial hredis hexecuted hdropped hinFlight
  · obtain rfl := hphase
    exact inv_hset h hw hworkers rfl rfl rfl trivial hredis hexecuted hdropped hinFlight

theorem inv_resume (h : Inv s) (hstep : s.step (.resume w) = some s') : Inv s' := by
  obtain ⟨worker, phase, hw, hnext, rfl⟩ := resume_effect hstep
  obtain ⟨hholds, hmatches, hbegun⟩ := next_counts (h.replies worker (List.mem_of_getElem? hw)) hnext
  refine h.move hw rfl (fun _ => rfl) (fun id => ?_) (fun id => ?_) h.hashes hmatches h.late
  · change _ + phase.holds.toList.count id + _ = _
    rw [hholds]
    rfl
  · have hcount := hbegun id
    change (s.executed ++ phase.begun.toList).count id + s.queuedIds.count id +
      phase.toRun.toList.count id ≤ _
    rw [List.count_append]
    omega

omit [LinearOrder Score] in
/-- A worker that leaves its `await` drops what it has in hand. -/
theorem inv_interrupt (h : Inv s) (hw : s.workers[w]? = some worker) {phase : Phase Id Score}
    (hholds : phase.holds = none) (htoRun : phase.toRun = none) (hmatches : ReplyMatches phase) :
    Inv ((s.interrupt worker.phase).setWorker w { worker with phase }) := by
  have hsettled : ∀ id, ((s.interrupt worker.phase).setWorker w { worker with phase }).settled id =
      worker.phase.holds.toList.count id + s.settled id := fun id =>
    settled_drop rfl rfl fun id hid => (h.of_held hw id hid).2
  refine h.move hw rfl (fun _ => rfl) (fun id => ?_) (fun id => ?_) h.hashes hmatches ?_
  · rw [hsettled, hholds]
    change s.queuedIds.count id + 0 + _ = _
    omega
  · change s.executed.count id + s.queuedIds.count id + phase.toRun.toList.count id ≤ _
    rw [htoRun]
    exact Nat.le_add_right _ _
  · intro id status hmem
    change id ∈ s.dropped ++ worker.phase.holds.toList
    rcases List.mem_append.mp hmem with hmem | hmem
    · exact List.mem_append_left _ (h.late id status hmem)
    · have hsent := Phase.holds_of_sent (Option.mem_toList.mp hmem)
      rw [hsent]
      exact List.mem_append_right _ (List.mem_singleton_self id)

theorem inv_leave (h : Inv s) (hstep : s.step (.fail w) = some s' ∨ s.step (.cancel w) = some s') :
    Inv s' := by
  obtain ⟨worker, phase, hw, hphase, rfl⟩ := leave_effect hstep
  rcases hphase with rfl | rfl
  · exact inv_interrupt h hw (Phase.holds_loopHead _) (Phase.toRun_loopHead _)
      (replyMatches_loopHead _)
  · exact inv_interrupt h hw rfl rfl trivial

theorem inv_late_zpopmin (h : Inv s) {i : ℕ} (hs' : s' = { s with
    inFlight := s.inFlight.eraseIdx i
    redis := s.redis.zpopmin.1
    dropped := s.dropped ++ s.redis.zpopmin.2.toList }) : Inv s' := by
  have hredis : s'.redis = s.redis.zpopmin.1 := by rw [hs']
  have hdropped : s'.dropped = s.dropped ++ s.redis.zpopmin.2.toList := by rw [hs']
  have hhashes := hashes_pop hredis
  have hknown : ∀ id, s'.known id = s.known id := fun id => known_congr (by rw [hhashes])
  have hsettled : ∀ id, s'.settled id = s.redis.zpopmin.2.toList.count id + s.settled id := by
    intro id
    refine settled_drop (by rw [statusOf, statusOf, hhashes]) hdropped fun popped hpopped => ?_
    -- what was in the sorted set is nowhere else
    have hcount := count_pop hredis popped
    have htokens := h.tokens popped
    have hle := known_le_one s popped
    rw [hpopped, Option.toList_some, List.count_singleton_self] at hcount
    omega
  refine h.keep (by rw [hs']; rfl) (by rw [hs']; rfl) (fun id => ?_) (fun id => ?_)
    (by rw [hhashes]; exact h.hashes) (by rw [hs']; exact h.replies) ?_
  · have hcount := count_pop hredis id
    rw [hsettled, hknown]
    omega
  · have hcount := count_pop hredis id
    have hexecuted : s'.executed = s.executed := by rw [hs']
    rw [hknown, hexecuted]
    omega
  · intro id status hmem
    rw [hs'] at hmem
    rw [hdropped]
    exact List.mem_append_left _ (h.late id status (List.mem_of_mem_eraseIdx hmem))

omit [LinearOrder Score] in
theorem inv_late_hset (h : Inv s) {i : ℕ} {id : Id} {status : Status} (hmem : id ∈ s.dropped)
    (hs' : s' = { s with
      inFlight := s.inFlight.eraseIdx i
      redis := s.redis.hset id status }) : Inv s' := by
  obtain ⟨hash, hhash⟩ := h.of_dropped hmem
  have hredis : s'.redis = s.redis.hset id status := by rw [hs']
  have hdropped : s'.dropped = s.dropped := by rw [hs']
  refine h.keep (by rw [hs']; rfl) (by rw [hs']; rfl) (fun id' => ?_) (fun id' => ?_)
    (hashes_hset h hhash hredis) (by rw [hs']; exact h.replies) ?_
  · rw [queuedIds_hset hredis, known_hset hhash hredis, settled_hset hhash hredis hdropped]
    by_cases hid : id' = id
    · rw [if_pos hid, if_pos (.inr hmem), hid, settled_of_mem hmem]
    · rw [if_neg hid]
  · have hexecuted : s'.executed = s.executed := by rw [hs']
    rw [queuedIds_hset hredis, known_hset hhash hredis, hexecuted]
  · intro id' status' hin
    rw [hs'] at hin
    rw [hdropped]
    exact h.late id' status' (List.mem_of_mem_eraseIdx hin)

theorem inv_late {i : ℕ} (h : Inv s) (hstep : s.step (.late i) = some s') : Inv s' := by
  obtain ⟨-, hs'⟩ | ⟨id, status, hcommand, hs'⟩ := late_effect hstep
  · exact inv_late_zpopmin h hs'
  · exact inv_late_hset h (h.late id status (List.mem_of_getElem? hcommand)) hs'

theorem inv_enqueue {data : TaskData Id Score} (h : Inv s)
    (hstep : s.step (.enqueue data) = some s') : Inv s' := by
  obtain ⟨hunknown, hs'⟩ := enqueue_effect hstep
  have hredis : s'.redis = s.redis.enqueue data := by rw [hs']
  have hnone := h.tokens data.taskId
  have hfresh : data.taskId ∉ s.queuedIds := List.count_eq_zero.mp (by omega)
  have hknown := known_enqueue hunknown hredis
  have hsettled := settled_enqueue (by omega) hredis (by rw [hs'])
  have hqueued : ∀ id, s'.queuedIds.count id =
      s.queuedIds.count id + if data.taskId = id then 1 else 0 := by
    intro id
    rw [queuedIds, hredis]
    exact Redis.count_enqueue s.redis data id hfresh
  refine h.keep (by rw [hs']; rfl) (by rw [hs']; rfl) (fun id => ?_) (fun id => ?_)
    (fun id hash hhash => ?_) (by rw [hs']; exact h.replies) (by rw [hs']; exact h.late)
  · rw [hqueued, hknown, hsettled]
    omega
  · have hexecuted : s'.executed = s.executed := by rw [hs']
    rw [hqueued, hknown, hexecuted]
    omega
  · rw [hredis, Redis.hashes_enqueue, Function.update_apply] at hhash
    split at hhash
    · next hid =>
      obtain rfl := Option.some.inj hhash
      exact ⟨data, rfl, hid.symm⟩
    · exact h.hashes id hash hhash

theorem inv_start {workerCount : ℕ} (h : Inv s) (hstep : s.step (.start workerCount) = some s') :
    Inv s' := by
  obtain rfl := Option.some.inj hstep
  have hnone : ∀ f : Worker Id Score → Option Id, f {} = none →
      (s.workers ++ List.replicate workerCount ({} : Worker Id Score)).filterMap f =
        s.workers.filterMap f := by
    intro f hf
    rw [List.filterMap_append, List.filterMap_replicate_of_none hf, List.append_nil]
  refine h.keep (hnone _ rfl) (hnone _ rfl) (fun _ => rfl) (fun _ => le_rfl) h.hashes ?_ h.late
  intro worker hmem
  rcases List.mem_append.mp hmem with hmem | hmem
  · exact h.replies worker hmem
  · rw [List.eq_of_mem_replicate hmem]
    trivial

theorem inv_stop (h : Inv s) (hstep : s.step .stop = some s') : Inv s' := by
  obtain rfl := Option.some.inj hstep
  refine h.keep (List.filterMap_map ..) (List.filterMap_map ..) (fun _ => rfl) (fun _ => le_rfl)
    h.hashes ?_ h.late
  intro worker hmem
  obtain ⟨before, hbefore, rfl⟩ := List.mem_map.mp hmem
  exact h.replies before hbefore

theorem inv_step {a : Action Id Score} (h : s.step a = some s') (hs : Inv s) : Inv s' := by
  cases a with
  | enqueue data => exact inv_enqueue hs h
  | start workerCount => exact inv_start hs h
  | stop => exact inv_stop hs h
  | serve w => exact inv_serve hs h
  | resume w => exact inv_resume hs h
  | fail w => exact inv_leave hs (.inl h)
  | cancel w => exact inv_leave hs (.inr h)
  | late i => exact inv_late hs h

omit [LinearOrder Score] in
theorem inv_empty : Inv ({} : Pool Id Score) where
  tokens _ := rfl
  once _ := le_rfl
  hashes _ _ h := nomatch h
  replies _ h := nomatch h
  late _ _ h := nomatch h

theorem known_enqueue_iff {data : TaskData Id Score} (hstep : s.step (.enqueue data) = some s')
    (id : Id) : s'.known id = 1 ↔ s.known id = 1 ∨ data.taskId = id := by
  obtain ⟨hunknown, hs'⟩ := enqueue_effect hstep
  rw [known_enqueue hunknown (by rw [hs'])]
  by_cases hid : data.taskId = id
  · rw [if_pos hid, ← hid, hunknown]
    simp
  · simp [hid]

/-- No other step makes a task known. -/
theorem known_step {a : Action Id Score} (hs : Inv s) (h : s.step a = some s')
    (ha : ∀ data, a ≠ .enqueue data) (id : Id) : s'.known id = s.known id := by
  cases a with
  | enqueue data => exact absurd rfl (ha data)
  | start workerCount =>
    obtain rfl := Option.some.inj h
    rfl
  | stop =>
    obtain rfl := Option.some.inj h
    rfl
  | serve w =>
    obtain ⟨⟨before, cancelling⟩, phase, hw, hserve, -⟩ := serve_effect h
    obtain ⟨-, hredis, -⟩ | ⟨id, -, hredis, -⟩ | ⟨data, hphase, hredis, -⟩ |
      ⟨data, hphase, hredis, -⟩ := serveAt_cases hserve
    · exact known_congr (by rw [hredis, Redis.hashes_zpopmin])
    · exact known_congr (by rw [hredis])
    all_goals
      obtain rfl := hphase
      obtain ⟨⟨hash, hhash⟩, -⟩ := hs.of_held hw data.taskId rfl
      exact known_hset hhash hredis id
  | resume w =>
    obtain ⟨worker, phase, -, -, rfl⟩ := resume_effect h
    rfl
  | fail w =>
    obtain ⟨worker, phase, -, -, rfl⟩ := leave_effect (.inl h)
    rfl
  | cancel w =>
    obtain ⟨worker, phase, -, -, rfl⟩ := leave_effect (.inr h)
    rfl
  | late i =>
    obtain ⟨-, rfl⟩ | ⟨id', status, hcommand, rfl⟩ := late_effect h
    · exact known_congr (by rw [Redis.hashes_zpopmin])
    · obtain ⟨hash, hhash⟩ := hs.of_dropped (hs.late id' status (List.mem_of_getElem? hcommand))
      exact known_hset hhash rfl id

end Steps

end Pool

end Chronoq.Demo
