import Chronoq.Foundations.LastWrite
import Chronoq.Foundations.Selection
import Chronoq.Foundations.Transition
import Chronoq.Foundations.Holders

/-! # The demo server's queue and worker pool

`Redis` is the sorted set and the hashes of `core/queue.py`; each of its commands is atomic. A worker of
`core/worker.py` is known by the `await` that it is suspended at (`Phase`), with the reply of Redis if the
command has been executed already. Between two awaits a worker is not interrupted, so `resume` runs it from
one to the next.

An `await` may raise at any time, before or after its command has been executed. A command that was sent may
still be executed afterwards (`late`).

`executed` lists the tasks that `simulate_task` was called for, and `dropped` those that left the sorted set
and were in no worker's hands any more before they had been marked completed. -/

namespace Chronoq.Demo
open Foundations

set_option autoImplicit false

inductive Status
  | pending
  | running
  | completed
  deriving DecidableEq, Repr

/-- What `enqueue` writes into the hash of a task. -/
structure TaskData (Id Score : Type) where
  taskId : Id
  taskType : String
  payloadSize : ℤ
  predictedMs : Score

/-- The hash of a task. `data` is missing where only `update_status` has written to it. -/
structure TaskHash (Id Score : Type) where
  data : Option (TaskData Id Score)
  status : Status

/-! ## Redis -/

structure Redis (Id Score : Type) where
  queue : List (Id × Score) := []
  hashes : Id → Option (TaskHash Id Score) := fun _ => none

namespace Redis
variable {Id Score : Type}

section Hashes
variable [DecidableEq Id]

/-- `MULTI`, `HSET`, `ZADD`, `EXEC`: the transaction of `enqueue` -/
def enqueue (r : Redis Id Score) (data : TaskData Id Score) : Redis Id Score where
  queue := setItem data.taskId data.predictedMs r.queue
  hashes := Function.update r.hashes data.taskId (some ⟨some data, .pending⟩)

/-- `HSET id status ..`: the other fields stay. -/
def hset (r : Redis Id Score) (id : Id) (status : Status) : Redis Id Score :=
  { r with hashes := Function.update r.hashes id (some ⟨(r.hashes id).bind TaskHash.data, status⟩) }

end Hashes

/-- `ZPOPMIN`: the member of least score, and the least of these. -/
def zpopmin [LinearOrder Id] [LinearOrder Score] (r : Redis Id Score) : Redis Id Score × Option Id :=
  match extractLeast (fun item : Id × Score => toLex (item.2, item.1)) r.queue with
  | none => (r, none)
  | some (item, rest) => ({ r with queue := rest }, some item.1)

end Redis

/-! ## Workers -/

/-- The `await` that a worker is suspended at. -/
inductive Phase (Id Score : Type)
  /-- the worker's task has been created and has not run yet -/
  | created
  /-- `zpopmin` in `dequeue`, with the reply -/
  | popping (reply : Option (Option Id))
  /-- `hgetall` in `dequeue`, with the reply -/
  | loading (id : Id) (reply : Option (Option (TaskHash Id Score)))
  /-- `asyncio.sleep` -/
  | sleeping
  /-- `update_status(task_id, "running")` -/
  | marking (data : TaskData Id Score) (isDone : Bool)
  /-- `simulate_task` -/
  | simulating (data : TaskData Id Score)
  /-- `update_status(task_id, "completed")` -/
  | completing (data : TaskData Id Score) (isDone : Bool)
  /-- the loop has been left -/
  | ended

structure Worker (Id Score : Type) where
  phase : Phase Id Score := .created
  cancelling : Bool := false

/-- A command that changes something in Redis. -/
inductive Command (Id : Type)
  | zpopmin
  | hset (id : Id) (status : Status)

namespace Phase
variable {Id Score : Type}

/-- The task that the worker has in hand. -/
def holds : Phase Id Score → Option Id
  | popping (some (some id)) => some id
  | loading id _ => some id
  | marking data _ => some data.taskId
  | simulating data => some data.taskId
  | completing data false => some data.taskId
  | _ => none

/-- The task in hand that has not been executed yet. -/
def toRun : Phase Id Score → Option Id
  | popping (some (some id)) => some id
  | loading id _ => some id
  | marking data _ => some data.taskId
  | _ => none

/-- The command that has been sent and not been executed. -/
def sent : Phase Id Score → Option (Command Id)
  | popping none => some .zpopmin
  | marking data false => some (.hset data.taskId .running)
  | completing data false => some (.hset data.taskId .completed)
  | _ => none

/-- The task whose execution begins with the phase. -/
def begun : Phase Id Score → Option Id
  | simulating data => some data.taskId
  | _ => none

/-- `while self._running` -/
def loopHead (running : Bool) : Phase Id Score := if running then popping none else ended

/-- The next `await` after the one that returns. Where the hash has no task data, `task_data["task_id"]`
raises and the handler goes on to the loop head. -/
def next (running : Bool) : Phase Id Score → Option (Phase Id Score)
  | created => some (loopHead running)
  | popping (some none) => some sleeping
  | popping (some (some id)) => some (loading id none)
  | loading _ (some none) => some sleeping
  | loading _ (some (some hash)) =>
    some (hash.data.elim (loopHead running) fun data => marking data false)
  | sleeping => some (loopHead running)
  | marking data true => some (simulating data)
  | simulating data => some (completing data false)
  | completing _ true => some (loopHead running)
  | _ => none

end Phase

/-! ## The pool -/

structure Pool (Id Score : Type) where
  redis : Redis Id Score := {}
  workers : List (Worker Id Score) := []
  running : Bool := false
  inFlight : List (Command Id) := []
  executed : List Id := []
  dropped : List Id := []

inductive Action (Id Score : Type)
  /-- `enqueue`, with an id that is new -/
  | enqueue (data : TaskData Id Score)
  | start (workerCount : ℕ)
  | stop
  /-- Redis executes the command that the worker awaits -/
  | serve (w : ℕ)
  /-- the `await` of the worker returns -/
  | resume (w : ℕ)
  /-- the `await` raises, and `except Exception` goes on to the loop head -/
  | fail (w : ℕ)
  /-- the `await` raises `CancelledError` after `stop`, and the loop is left -/
  | cancel (w : ℕ)
  /-- a command is executed whose `await` has raised -/
  | late (i : ℕ)

namespace Pool
variable {Id Score : Type}

def setWorker (s : Pool Id Score) (w : ℕ) (worker : Worker Id Score) : Pool Id Score :=
  { s with workers := s.workers.set w worker }

/-- The worker leaves the `await` at which it was, and what it had in hand. -/
def interrupt (s : Pool Id Score) (phase : Phase Id Score) : Pool Id Score :=
  { s with
    dropped := s.dropped ++ phase.holds.toList
    inFlight := s.inFlight ++ phase.sent.toList }

variable [LinearOrder Id] [LinearOrder Score]

/-- Redis executes what a worker awaits: the state of Redis, and the phase with the reply. -/
def serveAt (r : Redis Id Score) : Phase Id Score → Option (Redis Id Score × Phase Id Score)
  | .popping none => some (r.zpopmin.1, .popping (some r.zpopmin.2))
  | .loading id none => some (r, .loading id (some (r.hashes id)))
  | .marking data false => some (r.hset data.taskId .running, .marking data true)
  | .completing data false => some (r.hset data.taskId .completed, .completing data true)
  | _ => none

def step (s : Pool Id Score) : Action Id Score → Option (Pool Id Score)
  | .enqueue data =>
    if (s.redis.hashes data.taskId).isSome then none
    else some { s with redis := s.redis.enqueue data }
  | .start workerCount =>
    some { s with running := true, workers := s.workers ++ List.replicate workerCount {} }
  | .stop =>
    some { s with
      running := false
      workers := s.workers.map fun worker => { worker with cancelling := true } }
  | .serve w => do
    let worker ← s.workers[w]?
    let (redis, phase) ← serveAt s.redis worker.phase
    return { s with redis }.setWorker w { worker with phase }
  | .resume w => do
    let worker ← s.workers[w]?
    if worker.cancelling then none
    else do
      let phase ← worker.phase.next s.running
      return { s with executed := s.executed ++ phase.begun.toList }.setWorker w { worker with phase }
  | .fail w => do
    let worker ← s.workers[w]?
    match worker.phase with
    | .created | .ended => none
    | phase => return (s.interrupt phase).setWorker w { worker with phase := .loopHead s.running }
  | .cancel w => do
    let worker ← s.workers[w]?
    match worker.phase with
    | .ended => none
    | phase =>
      if worker.cancelling then return (s.interrupt phase).setWorker w { worker with phase := .ended }
      else none
  | .late i => do
    let command ← s.inFlight[i]?
    let s := { s with inFlight := s.inFlight.eraseIdx i }
    match command with
    | .zpopmin =>
      return { s with
        redis := s.redis.zpopmin.1
        dropped := s.dropped ++ s.redis.zpopmin.2.toList }
    | .hset id status => return { s with redis := s.redis.hset id status }

end Pool

end Chronoq.Demo
