import Chronoq.Foundations.Selection
import Chronoq.Celery.Rolling
import Chronoq.Ranker.Schemas

/-! # `scheduler.py`: the pre-broker gate

`LearnedScheduler` and its methods. Every `with self._lock` block is one function of the scheduler,
and these are the atomic steps that threads interleave:

* `push`: the block of `submit`; `pop`: the block of `dispatch_next` (`none` for an empty heap).
* `recordStart`, `cleanupRegistry`: the whole method of that name.
* `takeEntry`: the first block of `record_completion`, `self._registry.pop(task_id, None)`.
* `queueDepth`, `sameTypeDepth`: the second block of `record_completion`; `queueDepth` and
  `sameTypeCount`: the block of `_score`.

The public methods `submit`, `dispatchNext` and `recordCompletion` compose them as the source does,
for one thread that is not interrupted.

`heapq` is taken as a correct priority queue: the heap is the list of its entries, `heappop` takes
the least one in Python's tuple order. The callable `apply_fn` of an entry is a value of an
arbitrary type `ApplyFn`, scores of an arbitrary linear order `Score`, and the ranker is whatever
object `Ranker` the scheduler was given. -/

namespace Chronoq.Celery
open Foundations Ranker

set_option autoImplicit false

/-! ## State -/

inductive SchedulerMode
  | fifo
  | shadow
  | active
  deriving DecidableEq, Repr

structure HeapEntry (Score ApplyFn : Type) where
  score : Score
  seq : ℕ
  applyFn : ApplyFn
  taskId : String
  deriving DecidableEq, Repr

structure RegistryEntry where
  taskType : String
  payloadSize : ℤ
  startMs : Option ℚ
  deriving DecidableEq, Repr

/-- `LearnedScheduler`. In fifo mode `ranker` is `none` and never created. -/
structure LearnedScheduler (Score ApplyFn Ranker : Type) where
  mode : SchedulerMode
  ranker : Option Ranker
  stats : TypeStatsTracker
  heap : List (HeapEntry Score ApplyFn)
  arrivalCounter : ℕ
  registry : Dict String RegistryEntry

variable {Score ApplyFn Ranker : Type}

def LearnedScheduler.new (mode : SchedulerMode) (ranker : Ranker) (stats : TypeStatsTracker) :
    LearnedScheduler Score ApplyFn Ranker where
  mode := mode
  ranker := if mode = .fifo then none else some ranker
  stats := stats
  heap := []
  arrivalCounter := 0
  registry := ∅

/-! ## Heap order -/

/-- Position of an entry in Python's tuple order as long as arrival numbers differ: by score, then
by arrival number. -/
def HeapEntry.key (e : HeapEntry Score ApplyFn) : Score ×ₗ ℕ := toLex (e.score, e.seq)

/-- `a < b` as Python compares two heap tuples: the first unequal position decides. `none` where the
comparison reaches the callables, which have no order (`TypeError`). -/
def HeapEntry.tupleLt [LinearOrder Score] (a b : HeapEntry Score ApplyFn) : Option Bool :=
  if a.score = b.score then
    if a.seq = b.seq then none else some (decide (a.seq < b.seq))
  else some (decide (a.score < b.score))

/-! ## The blocks under `self._lock` -/

structure Submission (Score ApplyFn : Type) where
  taskId : String
  taskType : String
  payloadSize : ℤ
  applyFn : ApplyFn
  score : Score
  deriving DecidableEq, Repr

namespace LearnedScheduler

/-- The block of `submit`: refuse a registered id, else push the entry and register the id. Also
returns the entry pushed. -/
def push (s : LearnedScheduler Score ApplyFn Ranker) (sub : Submission Score ApplyFn) :
    Except PyException (LearnedScheduler Score ApplyFn Ranker × HeapEntry Score ApplyFn) :=
  if sub.taskId ∈ s.registry then .error (.taskIdAlreadyRegistered sub.taskId)
  else
    let entry : HeapEntry Score ApplyFn := ⟨sub.score, s.arrivalCounter, sub.applyFn, sub.taskId⟩
    .ok ({ s with
      heap := entry :: s.heap
      arrivalCounter := s.arrivalCounter + 1
      registry := s.registry.insert sub.taskId ⟨sub.taskType, sub.payloadSize, none⟩ }, entry)

def pop [LinearOrder Score] (s : LearnedScheduler Score ApplyFn Ranker) :
    Option (HeapEntry Score ApplyFn × LearnedScheduler Score ApplyFn Ranker) :=
  (extractLeast HeapEntry.key s.heap).map fun p => (p.1, { s with heap := p.2 })

def recordStart (s : LearnedScheduler Score ApplyFn Ranker) (taskId taskType : String)
    (payloadSize : ℤ) (nowMs : ℚ) : LearnedScheduler Score ApplyFn Ranker :=
  match s.registry.lookup taskId with
  | none => { s with registry := s.registry.insert taskId ⟨taskType, payloadSize, some nowMs⟩ }
  | some entry => { s with registry := s.registry.insert taskId { entry with startMs := some nowMs } }

def takeEntry (s : LearnedScheduler Score ApplyFn Ranker) (taskId : String) :
    Option RegistryEntry × LearnedScheduler Score ApplyFn Ranker :=
  (s.registry.lookup taskId, { s with registry := s.registry.erase taskId })

def cleanupRegistry (s : LearnedScheduler Score ApplyFn Ranker) (taskId : String) :
    LearnedScheduler Score ApplyFn Ranker :=
  { s with registry := s.registry.erase taskId }

def queueDepth (s : LearnedScheduler Score ApplyFn Ranker) : ℕ := s.heap.length

def sameTypeDepth (s : LearnedScheduler Score ApplyFn Ranker) (taskType : String) : ℕ :=
  s.heap.countP fun e => (s.registry.lookup e.taskId).map RegistryEntry.taskType = some taskType

/-- The `Counter` of `_score`: here a held id without a registry entry counts as type `""`. -/
def sameTypeCount (s : LearnedScheduler Score ApplyFn Ranker) (taskType : String) : ℕ :=
  s.heap.countP fun e => ((s.registry.lookup e.taskId).map RegistryEntry.taskType).getD "" = taskType

/-! ## Scoring and completion -/

def scoreContext (s : LearnedScheduler Score ApplyFn Ranker) (taskType : String) : QueueContext :=
  let snap := s.stats.snapshot taskType
  { queueDepth := s.queueDepth
    queueDepthSameType := s.sameTypeCount taskType
    recentMeanMsThisType := snap.mean
    recentP95MsThisType := snap.p95
    recentCountThisType := snap.count }

/-- `_score`, with `predict` standing for the ranker's extractor followed by its estimator. -/
def score [Zero Score] (predict : Ranker → TaskCandidate → QueueContext → Except PyException Score)
    (s : LearnedScheduler Score ApplyFn Ranker) (taskId taskType : String) (payloadSize : ℤ) :
    Except PyException Score :=
  match s.ranker with
  | none => .ok 0
  | some ranker => do
    let size ← floatOfInt payloadSize
    predict ranker ⟨taskId, taskType, Finmap.singleton "payload_size" (.float size)⟩
      (s.scoreContext taskType)

def completionMetadata (s : LearnedScheduler Score ApplyFn Ranker) (taskType : String) :
    Dict String PyValue :=
  let snap := s.stats.snapshot taskType
  (∅ : Dict String PyValue)
    |>.insert "recent_mean_ms_this_type" (.float snap.mean)
    |>.insert "recent_p95_ms_this_type" (.float snap.p95)
    |>.insert "recent_count_this_type" (.int snap.count)
    |>.insert "queue_depth" (.int s.queueDepth)
    |>.insert "queue_depth_same_type" (.int (s.sameTypeDepth taskType))

/-- How a call of `record_completion` ends: the scheduler, what is returned or raised, and the call
it made to `ranker.record`, if any. -/
structure Completion (Score ApplyFn Ranker : Type) where
  scheduler : LearnedScheduler Score ApplyFn Ranker
  outcome : Except PyException (Option ℚ)
  recorded : Option RecordCall

/-- `record_completion`, at clock reading `nowMs`. `record` is `TaskRanker.record`. -/
def recordCompletion (record : Ranker → RecordCall → Ranker × Except PyException Unit)
    (s : LearnedScheduler Score ApplyFn Ranker) (taskId taskType : String) (payloadSize : ℤ)
    (nowMs : ℚ) : Completion Score ApplyFn Ranker :=
  let (entry, s₁) := s.takeEntry taskId
  match entry.bind RegistryEntry.startMs with
  | none => ⟨s₁, .ok none, none⟩
  | some startMs =>
    let actualMs := nowMs - startMs
    let s₂ := { s₁ with stats := s₁.stats.record taskType actualMs }
    match s₂.ranker with
    | none => ⟨s₂, .ok (some actualMs), none⟩
    | some ranker =>
      let call : RecordCall := ⟨taskType, payloadSize, actualMs, s₂.completionMetadata taskType⟩
      let (ranker', result) := record ranker call
      ⟨{ s₂ with ranker := some ranker' }, result.map fun _ => some actualMs, some call⟩

/-! ## Submitting and dispatching -/

/-- `dispatch_next` run by one thread without interruption; `apply` is the effect of calling an
`apply_fn`, which may use the scheduler and may raise. -/
def dispatchNext [LinearOrder Score]
    (apply : ApplyFn → LearnedScheduler Score ApplyFn Ranker →
      LearnedScheduler Score ApplyFn Ranker × Except PyException Unit)
    (s : LearnedScheduler Score ApplyFn Ranker) :
    LearnedScheduler Score ApplyFn Ranker × Except PyException Bool :=
  match s.pop with
  | none => (s, .ok false)
  | some (e, s') =>
    let (s'', result) := apply e.applyFn s'
    (s'', result.map fun _ => true)

/-- `submit` run by one thread without interruption, with what its `apply_fn` acts on apart from the
scheduler. `uuid` is what `uuid.uuid4()` returns; an absent or empty `task_id` is replaced by it. -/
def submitIn {World : Type} [Zero Score]
    (predict : Ranker → TaskCandidate → QueueContext → Except PyException Score)
    (apply : ApplyFn → LearnedScheduler Score ApplyFn Ranker × World →
      (LearnedScheduler Score ApplyFn Ranker × World) × Except PyException Unit)
    (s : LearnedScheduler Score ApplyFn Ranker) (world : World) (uuid taskType : String)
    (payloadSize : ℤ) (applyFn : ApplyFn) (taskId : Option String) :
    (LearnedScheduler Score ApplyFn Ranker × World) × Except PyException String :=
  let tid := match taskId with
    | none => uuid
    | some given => if given = "" then uuid else given
  match s.mode with
  | .fifo =>
    let (sw, result) := apply applyFn (s, world)
    (sw, result.map fun _ => tid)
  | .shadow =>
    match s.score predict tid taskType payloadSize with
    | .error e => ((s, world), .error e)
    | .ok _ =>
      let (sw, result) := apply applyFn (s, world)
      (sw, result.map fun _ => tid)
  | .active =>
    match s.score predict tid taskType payloadSize with
    | .error e => ((s, world), .error e)
    | .ok score =>
      match s.push ⟨tid, taskType, payloadSize, applyFn, score⟩ with
      | .error e => ((s, world), .error e)
      | .ok (s', _) => ((s', world), .ok tid)

/-- `submit` for `apply_fn`s that act on the scheduler only. -/
def submit [Zero Score]
    (predict : Ranker → TaskCandidate → QueueContext → Except PyException Score)
    (apply : ApplyFn → LearnedScheduler Score ApplyFn Ranker →
      LearnedScheduler Score ApplyFn Ranker × Except PyException Unit)
    (s : LearnedScheduler Score ApplyFn Ranker) (uuid taskType : String) (payloadSize : ℤ)
    (applyFn : ApplyFn) (taskId : Option String) :
    LearnedScheduler Score ApplyFn Ranker × Except PyException String :=
  let applyAlone := fun f (sw : LearnedScheduler Score ApplyFn Ranker × Unit) =>
    (((apply f sw.1).1, ()), (apply f sw.1).2)
  let (sw, result) := s.submitIn predict applyAlone () uuid taskType payloadSize applyFn taskId
  (sw.1, result)

end LearnedScheduler

end Chronoq.Celery
