import Chronoq.Ranker.Values

/-! # `schemas.py` and `config.py`: records, candidates, contexts and the configuration

Durations and other floats are exact rationals; a timestamp is a number of microseconds since the
Unix epoch, in UTC. Fields keep the names, order and defaults of the source. -/

namespace Chronoq.Ranker

set_option autoImplicit false

/-- `RankerConfig`: the fields that the modelled code reads. -/
structure RankerConfig where
  coldStartThreshold : ℤ := 50
  retrainEveryN : ℤ := 100
  numLeaves : ℤ := 31
  nEstimators : ℤ := 500
  learningRate : ℚ := 5 / 100
  minDataInLeaf : ℤ := 20
  incrementalRounds : ℤ := 10
  minGroups : ℤ := 20
  fullRefitEveryNIncrementals : ℤ := 20
  psiThreshold : ℚ := 2 / 10
  allowDegrade : Bool := true
  deriving DecidableEq, Repr

abbrev Instant := ℤ

structure TaskRecord where
  taskType : String
  payloadSize : ℤ
  actualMs : ℚ
  metadata : Dict String PyValue := ∅
  recordedAt : Instant
  modelVersionAtRecord : String := ""
  groupId : Option String := none
  rankLabel : Option ℤ := none
  featureSchemaVersion : String := "v0-legacy"
  deriving DecidableEq

structure TaskCandidate where
  taskId : String
  taskType : String
  features : Dict String PyValue := ∅
  deriving DecidableEq

structure QueueContext where
  queueDepth : ℤ := 0
  queueDepthSameType : ℤ := 0
  workerCountBusy : ℤ := 0
  workerCountIdle : ℤ := 0
  recentMeanMsThisType : ℚ := 0
  recentP95MsThisType : ℚ := 0
  recentCountThisType : ℤ := 0
  timeSinceLastRetrainS : ℚ := 0
  deriving DecidableEq, Repr

inductive ModelType
  | heuristic
  | gradientBoosting
  | lambdarank
  deriving DecidableEq, Repr

/-- The arguments of one call of `TaskRanker.record`. -/
structure RecordCall where
  taskType : String
  payloadSize : ℤ
  actualMs : ℚ
  metadata : Dict String PyValue
  deriving DecidableEq

end Chronoq.Ranker
