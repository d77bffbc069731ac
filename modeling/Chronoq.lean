import Chronoq.Foundations.Transition
import Chronoq.Foundations.Selection
import Chronoq.Foundations.Statistics
import Chronoq.Foundations.Floats
import Chronoq.Foundations.Interning
import Chronoq.Foundations.Fallible
import Chronoq.Foundations.Pairs
import Chronoq.Foundations.Slices
import Chronoq.Foundations.Grouping
import Chronoq.Foundations.Interleaving
import Chronoq.Foundations.Receivers
import Chronoq.Foundations.Agenda
import Chronoq.Foundations.Resource
import Chronoq.Foundations.Schedule
import Chronoq.Foundations.Numerals
import Chronoq.Foundations.Ranking
import Chronoq.Foundations.OrderStatistics
import Chronoq.Foundations.Moments
import Chronoq.Foundations.Histogram
import Chronoq.Foundations.Divergence
import Chronoq.Foundations.Sampling
import Chronoq.Foundations.LastWrite
import Chronoq.Foundations.Holders
import Chronoq.Foundations.Occupancy
import Chronoq.Foundations.ScheduleBounds
import Chronoq.Foundations.QueueMonotone
import Chronoq.Foundations.Tables
import Chronoq.Foundations.Drain
import Chronoq.Foundations.CompletionOrder
import Chronoq.Foundations.NearShortest
import Chronoq.Foundations.Tails
import Chronoq.Foundations.Progress
import Chronoq.Foundations.Batches
import Chronoq.Ranker.Values
import Chronoq.Ranker.Schemas
import Chronoq.Ranker.Features
import Chronoq.Ranker.Encoder
import Chronoq.Ranker.Preparation
import Chronoq.Ranker.Labels
import Chronoq.Ranker.RankMetrics
import Chronoq.Ranker.LambdaRank
import Chronoq.Ranker.FitRuns
import Chronoq.Ranker.QualityGate
import Chronoq.Ranker.TrainingRows
import Chronoq.Ranker.HeldOut
import Chronoq.Ranker.Coherence
import Chronoq.Ranker.Estimators
import Chronoq.Ranker.Predictions
import Chronoq.Ranker.ConcurrentPredict
import Chronoq.Ranker.PredictAtomicity
import Chronoq.Ranker.TornPredictions
import Chronoq.Ranker.Drift
import Chronoq.Ranker.TaskRanker
import Chronoq.Ranker.Cadence
import Chronoq.Ranker.ModelChoice
import Chronoq.Ranker.Versions
import Chronoq.Ranker.ConcurrentRetrain
import Chronoq.Ranker.StaleRetrain
import Chronoq.Ranker.FailedRetrain
import Chronoq.Ranker.Datetime
import Chronoq.Ranker.Storage
import Chronoq.Ranker.StoreRoundTrip
import Chronoq.Ranker.StoreEquivalence
import Chronoq.Ranker.PairMetrics
import Chronoq.Ranker.TauAntisymmetry
import Chronoq.Ranker.TauAccuracy
import Chronoq.Ranker.RhoBounds
import Chronoq.Ranker.RhoOrder
import Chronoq.Ranker.ExtractionSymmetry
import Chronoq.Ranker.StableRanking
import Chronoq.Ranker.RefitSchedule
import Chronoq.Ranker.DeclaredFeatures
import Chronoq.Ranker.BatchScoring
import Chronoq.Ranker.DurationEstimates
import Chronoq.Ranker.PsiBins
import Chronoq.Ranker.PsiCounts
import Chronoq.Ranker.CompleteShift
import Chronoq.Ranker.PsiDivergence
import Chronoq.Ranker.DenseEncoder
import Chronoq.Ranker.FaultFree
import Chronoq.Celery.Rolling
import Chronoq.Celery.Scheduler
import Chronoq.Celery.Threads
import Chronoq.Celery.Conservation
import Chronoq.Celery.DispatchOrder
import Chronoq.Celery.FailedDispatch
import Chronoq.Celery.Signals
import Chronoq.Celery.DispatchChain
import Chronoq.Celery.Leakage
import Chronoq.Celery.Calls
import Chronoq.Celery.Registry
import Chronoq.Celery.Telemetry
import Chronoq.Celery.TaskIdentity
import Chronoq.Celery.SignalWiring
import Chronoq.Celery.RegistryLeak
import Chronoq.Celery.Shadow
import Chronoq.Celery.HeldScores
import Chronoq.Celery.RollingWindow
import Chronoq.Celery.Producer
import Chronoq.Celery.ScoredBatch
import Chronoq.Celery.EagerRun
import Chronoq.Bench.Simulator
import Chronoq.Bench.Baselines
import Chronoq.Bench.JobConservation
import Chronoq.Bench.Selections
import Chronoq.Bench.WorkConservation
import Chronoq.Bench.FirstCome
import Chronoq.Bench.ShortestFirst
import Chronoq.Bench.Visibility
import Chronoq.Bench.NearestRank
import Chronoq.Bench.Fairness
import Chronoq.Bench.Downsampling
import Chronoq.Bench.BorgShard
import Chronoq.Bench.ShardLines
import Chronoq.Bench.PolicyBounds
import Chronoq.Bench.LoadMonotone
import Chronoq.Bench.PriorityFirst
import Chronoq.Bench.LambdaRankRun
import Chronoq.Bench.HeadOfLine
import Chronoq.Bench.TrainedRanker
import Chronoq.Bench.Sweep
import Chronoq.Bench.LoadSweep
import Chronoq.Bench.LoadCurves
import Chronoq.Demo.WorkerPool
import Chronoq.Demo.PoolInvariant
import Chronoq.Demo.TaskConservation
import Chronoq.Demo.StatusOrder
import Chronoq.Demo.PopOrder
import Chronoq.Demo.Telemetry
import Chronoq.Demo.PoolDrains
import Chronoq.Demo.Server
import Chronoq.Demo.LearningLoop
