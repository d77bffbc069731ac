import Chronoq.Foundations.Statistics
import Chronoq.Ranker.Values

/-! # `rolling.py`: per-type rolling statistics

`TypeStatsTracker` keeps the last `window` durations of every task type. Each method is one block
under the tracker's own lock, so it is one function of the tracker here; durations are exact. -/

namespace Chronoq.Celery
open Foundations

set_option autoImplicit false

/-- `TypeStatsTracker`: `_window` and `_data`, one bounded buffer per task type seen so far. -/
structure TypeStatsTracker where
  window : ℕ
  data : Dict String (List ℚ)
  deriving DecidableEq

def TypeStatsTracker.new (window : ℕ) : TypeStatsTracker := ⟨window, ∅⟩

/-- The buffer of a type; a type never seen has none, which every reader treats as empty. -/
def TypeStatsTracker.buffer (t : TypeStatsTracker) (taskType : String) : List ℚ :=
  (t.data.lookup taskType).getD []

def TypeStatsTracker.record (t : TypeStatsTracker) (taskType : String) (actualMs : ℚ) :
    TypeStatsTracker :=
  { t with data := t.data.insert taskType (pushBounded t.window (t.buffer taskType) actualMs) }

/-- `seed`: one synthetic observation for each given type, in the order given. -/
def TypeStatsTracker.seed (t : TypeStatsTracker) (typeMeans : List (String × ℚ)) :
    TypeStatsTracker :=
  typeMeans.foldl (fun t entry => t.record entry.1 entry.2) t

structure StatsSnapshot where
  mean : ℚ
  p95 : ℚ
  count : ℕ
  deriving DecidableEq, Repr

def TypeStatsTracker.snapshot (t : TypeStatsTracker) (taskType : String) : StatsSnapshot :=
  let buf := t.buffer taskType
  if buf = [] then ⟨0, 0, 0⟩ else ⟨Foundations.mean buf, percentile 95 buf, buf.length⟩

@[simp] theorem TypeStatsTracker.record_window (t : TypeStatsTracker) (taskType : String) (x : ℚ) :
    (t.record taskType x).window = t.window := rfl

@[simp] theorem TypeStatsTracker.record_buffer (t : TypeStatsTracker) (taskType : String) (x : ℚ) :
    (t.record taskType x).buffer taskType = pushBounded t.window (t.buffer taskType) x := by
  simp [record, buffer, Finmap.lookup_insert]

/-- After recording into a tracker that keeps at least one value, the reported mean is that of a
list ending in the recorded value. -/
theorem TypeStatsTracker.record_snapshot_mean (t : TypeStatsTracker) (taskType : String) (x : ℚ)
    (hw : 0 < t.window) : ((t.record taskType x).snapshot taskType).mean =
      Foundations.mean ((t.buffer taskType).drop ((t.buffer taskType).length + 1 - t.window) ++ [x]) := by
  have hne : pushBounded t.window (t.buffer taskType) x ≠ [] := by
    rw [pushBounded_eq_append hw]
    simp
  simp only [snapshot, record_buffer, hne, if_false]
  rw [pushBounded_eq_append hw]

/-- A tracker of window `0` reports nothing, whatever is recorded. -/
theorem TypeStatsTracker.record_snapshot_of_window_zero (t : TypeStatsTracker) (taskType : String)
    (x : ℚ) (hw : t.window = 0) : (t.record taskType x).snapshot taskType = ⟨0, 0, 0⟩ := by
  simp [snapshot, hw]

end Chronoq.Celery
