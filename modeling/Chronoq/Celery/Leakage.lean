import Chronoq.Celery.Scheduler

/-! # What the metadata of a training record tells about the record's own duration

`record_completion` first adds the measured duration to the rolling statistics and then takes the
snapshot that it hands to `ranker.record`, so the duration is part of the features stored for it.
`_score` takes its snapshot of the same type while the task has not run. Only a tracker that keeps
no value at all (`window` 0) reports nothing about the duration just recorded. -/

namespace Chronoq.Celery
open Foundations Ranker

set_option autoImplicit false

variable {Score ApplyFn Ranker : Type}

/-! ## The metadata of a completion -/

/-- The metadata that completing a task at `nowMs` hands to `ranker.record`, if it is called. -/
def completionHandsOver (record : Ranker → RecordCall → Ranker × Except PyException Unit)
    (s : LearnedScheduler Score ApplyFn Ranker) (taskId taskType : String) (payloadSize : ℤ)
    (nowMs : ℚ) : Option (Dict String PyValue) :=
  (s.recordCompletion record taskId taskType payloadSize nowMs).recorded.map RecordCall.metadata

/-- The scheduler as `record_completion` finds it when it takes the snapshot. -/
def completionSnapshotState (s : LearnedScheduler Score ApplyFn Ranker) (taskId taskType : String)
    (actualMs : ℚ) : LearnedScheduler Score ApplyFn Ranker :=
  { s with
    registry := s.registry.erase taskId
    stats := s.stats.record taskType actualMs }

theorem completionHandsOver_eq (record : Ranker → RecordCall → Ranker × Except PyException Unit)
    {s : LearnedScheduler Score ApplyFn Ranker} {ranker : Ranker} (hranker : s.ranker = some ranker)
    {taskId : String} {entry : RegistryEntry} {startMs : ℚ}
    (hentry : s.registry.lookup taskId = some entry) (hstart : entry.startMs = some startMs)
    (taskType : String) (payloadSize : ℤ) (nowMs : ℚ) :
    completionHandsOver record s taskId taskType payloadSize nowMs =
      some ((completionSnapshotState s taskId taskType (nowMs - startMs)).completionMetadata
        taskType) := by
  unfold completionHandsOver LearnedScheduler.recordCompletion
  simp [LearnedScheduler.takeEntry, hentry, hstart, hranker, completionSnapshotState]

theorem completionMetadata_mean (s : LearnedScheduler Score ApplyFn Ranker) (taskType : String) :
    (s.completionMetadata taskType).lookup "recent_mean_ms_this_type" =
      some (.float (s.stats.snapshot taskType).mean) := by
  simp [LearnedScheduler.completionMetadata, Finmap.lookup_insert_of_ne]

/-- Metadata depends on the statistics through the snapshot of the type only. -/
theorem completionMetadata_congr {s s' : LearnedScheduler Score ApplyFn Ranker} (taskType : String)
    (hheap : s.heap = s'.heap) (hregistry : s.registry = s'.registry)
    (hsnap : s.stats.snapshot taskType = s'.stats.snapshot taskType) :
    s.completionMetadata taskType = s'.completionMetadata taskType := by
  simp only [LearnedScheduler.completionMetadata, LearnedScheduler.queueDepth,
    LearnedScheduler.sameTypeDepth, hheap, hregistry, hsnap]

/-! ## Two completions that differ in the duration -/

/-- With room for one value the mean of the type tells two durations apart. -/
theorem snapshot_mean_tells_duration (t : TypeStatsTracker) (taskType : String)
    (hw : 0 < t.window) {x y : ℚ}
    (h : ((t.record taskType x).snapshot taskType).mean =
      ((t.record taskType y).snapshot taskType).mean) : x = y := by
  rw [t.record_snapshot_mean taskType x hw, t.record_snapshot_mean taskType y hw] at h
  exact (mean_append_singleton_inj _ x y).mp h

/-- For a scheduler with a ranker and a started task, two completions that differ only in the
measured duration hand over the same metadata exactly when the tracker keeps no value. -/
theorem completion_metadata_blind_iff
    (record : Ranker → RecordCall → Ranker × Except PyException Unit)
    {s : LearnedScheduler Score ApplyFn Ranker} {ranker : Ranker} (hranker : s.ranker = some ranker)
    {taskId : String} {entry : RegistryEntry} {startMs : ℚ}
    (hentry : s.registry.lookup taskId = some entry) (hstart : entry.startMs = some startMs)
    (taskType : String) (payloadSize : ℤ) :
    (∀ now₁ now₂ : ℚ, startMs ≤ now₁ → startMs ≤ now₂ →
      completionHandsOver record s taskId taskType payloadSize now₁ =
        completionHandsOver record s taskId taskType payloadSize now₂) ↔
    s.stats.window = 0 := by
  constructor
  · intro hblind
    by_contra hw
    have heq := hblind startMs (startMs + 1) (le_refl _) (by linarith)
    rw [completionHandsOver_eq record hranker hentry hstart,
      completionHandsOver_eq record hranker hentry hstart, Option.some_inj] at heq
    have hmean := congrArg (fun d : Dict String PyValue => d.lookup "recent_mean_ms_this_type") heq
    simp only [completionMetadata_mean, Option.some.injEq, PyValue.float.injEq,
      ExtFloat.finite.injEq] at hmean
    have hsame : startMs - startMs = startMs + 1 - startMs :=
      snapshot_mean_tells_duration s.stats taskType (Nat.pos_of_ne_zero hw) hmean
    linarith
  · intro hw now₁ now₂ _ _
    rw [completionHandsOver_eq record hranker hentry hstart,
      completionHandsOver_eq record hranker hentry hstart, Option.some_inj]
    refine completionMetadata_congr taskType rfl rfl ?_
    rw [completionSnapshotState, completionSnapshotState,
      s.stats.record_snapshot_of_window_zero taskType _ hw,
      s.stats.record_snapshot_of_window_zero taskType _ hw]

/-! ## A task started in shadow mode -/

/-- A fresh shadow-mode scheduler after the `task_prerun` of one task. -/
def startedTask : LearnedScheduler ℚ ℕ Unit :=
  (LearnedScheduler.new .shadow () (.new 100)).recordStart "a" "resize" 512 0

theorem startedTask_lookup : startedTask.registry.lookup "a" = some ⟨"resize", 512, some 0⟩ :=
  Finmap.lookup_insert (s := (∅ : Dict String RegistryEntry))

theorem completion_metadata_blind_iff_started :
    (∀ now₁ now₂ : ℚ, 0 ≤ now₁ → 0 ≤ now₂ →
      completionHandsOver (fun r _ => (r, .ok ())) startedTask "a" "resize" 512 now₁ =
        completionHandsOver (fun r _ => (r, .ok ())) startedTask "a" "resize" 512 now₂) ↔
    startedTask.stats.window = 0 :=
  completion_metadata_blind_iff _ rfl startedTask_lookup rfl "resize" 512

/-- With the default window the first duration of a type is its own mean. -/
theorem completion_metadata_leaks_duration :
    completionHandsOver (fun r _ => (r, .ok ())) startedTask "a" "resize" 512 1 ≠
      completionHandsOver (fun r _ => (r, .ok ())) startedTask "a" "resize" 512 2 := by
  intro heq
  rw [completionHandsOver_eq _ rfl startedTask_lookup rfl,
    completionHandsOver_eq _ rfl startedTask_lookup rfl, Option.some_inj] at heq
  have hmean := congrArg (fun d : Dict String PyValue => d.lookup "recent_mean_ms_this_type") heq
  simp only [completionMetadata_mean, Option.some.injEq, PyValue.float.injEq,
      ExtFloat.finite.injEq] at hmean
  have hsame : (1 : ℚ) - 0 = 2 - 0 :=
    snapshot_mean_tells_duration startedTask.stats "resize" (by decide) hmean
  norm_num at hsame

end Chronoq.Celery
