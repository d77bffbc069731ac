import Chronoq.Foundations.Transition
import Chronoq.Ranker.StoreRoundTrip

/-! # `MemoryStore` and `SqliteStore` are interchangeable

Both stores answer any sequence of calls alike, as long as the records are ones that a table takes, every
timestamp is in UTC and every feature schema version is nonempty. The stores stay related: the rows hold
the records of the list one by one. For `count_since` the order of the timestamps and that of their texts
have to be the same (`isoformat_lt_iff`).

* `StoreCall`, `StoreAnswer`: the methods of `TelemetryStore` and what they return.
* `stores_interchangeable`: the answers are the same, lists of records up to their order. -/

namespace Chronoq.Ranker
open Foundations

set_option autoImplicit false

/-! ## Calls and answers -/

inductive StoreCall
  | save (r : SavedRecord)
  | getAll
  | getByType (taskType : String)
  | count
  | countSince (after : DateTime)

inductive StoreAnswer
  | saved
  | records (records : List SavedRecord)
  | number (n : ℕ)

def MemoryStore.call (s : MemoryStore) :
    StoreCall → MemoryStore × Except PyException StoreAnswer
  | .save r => (s.save r, .ok .saved)
  | .getAll => (s, .ok (.records s.getAll))
  | .getByType taskType => (s, .ok (.records (s.getByType taskType)))
  | .count => (s, .ok (.number s.count))
  | .countSince after => (s, (s.countSince after).map .number)

def SqliteStore.call (json : Json) (sqlite : Sqlite) (s : SqliteStore) :
    StoreCall → SqliteStore × Except PyException StoreAnswer
  | .save r => ((s.save json r).1, (s.save json r).2.map fun _ => .saved)
  | .getAll => (s, (s.getAll json sqlite).map .records)
  | .getByType taskType => (s, (s.getByType json sqlite taskType).map .records)
  | .count => (s, .ok (.number s.count))
  | .countSince after => (s, .ok (.number (s.countSince after)))

/-- The same count, or the same records in any order. -/
inductive StoreAnswer.Same : StoreAnswer → StoreAnswer → Prop
  | saved : Same .saved .saved
  | records {rs rs' : List SavedRecord} (h : rs.Perm rs') : Same (.records rs) (.records rs')
  | number (n : ℕ) : Same (.number n) (.number n)

/-- Both stores return, and the same. -/
def Agree (a b : Except PyException StoreAnswer) : Prop :=
  ∃ x y, a = .ok x ∧ b = .ok y ∧ x.Same y

/-- A record that both stores keep as it is. -/
structure SavedRecord.Interchangeable (json : Json) (r : SavedRecord) : Prop
    extends r.Storable json where
  utc : r.recordedAt.utcoffset = some 0
  version : r.featureSchemaVersion ≠ ""

/-- Only such records are saved, and cutoffs are in UTC. -/
def StoreCall.Supported (json : Json) : StoreCall → Prop
  | .save r => r.Interchangeable json
  | .countSince after => after.utcoffset = some 0
  | _ => True

/-! ## The relation between the stores -/

theorem SavedRecord.Interchangeable.decoded {json : Json} {r : SavedRecord}
    (h : r.Interchangeable json) : r.decoded = r := by
  rw [SavedRecord.decoded, DateTime.replaceUtc_of_utc h.utc, if_neg h.version]

/-- The rows hold the records of the list. -/
structure Mirrors (json : Json) (m : MemoryStore) (s : SqliteStore) : Prop where
  holds : s.Holds json m.records
  interchangeable : ∀ r ∈ m.records, r.Interchangeable json

namespace Mirrors
variable {json : Json} {m : MemoryStore} {s : SqliteStore}

theorem map_decoded (h : Mirrors json m s) {records : List SavedRecord}
    (hsub : records ⊆ m.records) : records.map SavedRecord.decoded = records := by
  calc records.map SavedRecord.decoded
      = records.map id := List.map_congr_left fun r hr => (h.interchangeable r (hsub hr)).decoded
    _ = records := List.map_id records

theorem save (h : Mirrors json m s) {r : SavedRecord} (hr : r.Interchangeable json) :
    Mirrors json (m.save r) (s.save json r).1 where
  holds := (h.holds.save hr.toStorable).1
  interchangeable r' hr' := by
    rcases List.mem_append.mp hr' with hold | hnew
    · exact h.interchangeable r' hold
    · rw [List.mem_singleton.mp hnew]
      exact hr

/-- Comparing texts counts the records that are later. -/
theorem countSince (h : Mirrors json m s) {after : DateTime} (hafter : after.utcoffset = some 0) :
    m.countSince after = .ok (s.countSince after) := by
  have hlater : m.records.mapM (fun r : SavedRecord => r.recordedAt.gt after) =
      .ok (m.records.map fun r => decide (after.isoformat < r.recordedAt.isoformat)) := by
    rw [mapM_eq_ok_iff, List.forall₂_map_right_iff, List.forall₂_same]
    exact fun r hr => DateTime.gt_iff_isoformat (h.interchangeable r hr).utc hafter
  rw [MemoryStore.countSince, hlater, h.holds.countSince after]
  simp only [Except.map, List.countP_map]
  rfl

/-- Every call keeps the stores in the relation, and they agree on the answer. -/
theorem call (h : Mirrors json m s) (sqlite : Sqlite) {c : StoreCall} (hc : c.Supported json) :
    Mirrors json (m.call c).1 (s.call json sqlite c).1 ∧
      Agree (m.call c).2 (s.call json sqlite c).2 := by
  cases c with
  | save r =>
    refine ⟨h.save hc, .saved, .saved, rfl, ?_, .saved⟩
    simp only [SqliteStore.call, (h.holds.save hc.toStorable).2, Except.map]
  | getAll =>
    obtain ⟨decoded, hall, hperm⟩ := h.holds.getAll sqlite
    rw [h.map_decoded (List.Subset.refl _)] at hperm
    refine ⟨h, .records m.records, .records decoded, rfl, ?_, .records hperm.symm⟩
    simp only [SqliteStore.call, hall, Except.map]
  | getByType taskType =>
    obtain ⟨decoded, hall, hperm⟩ := h.holds.getByType sqlite taskType
    rw [h.map_decoded (List.filter_subset_self _)] at hperm
    refine ⟨h, .records (m.getByType taskType), .records decoded, rfl, ?_, .records hperm.symm⟩
    simp only [SqliteStore.call, hall, Except.map]
  | count =>
    refine ⟨h, .number m.count, .number s.count, rfl, rfl, ?_⟩
    rw [h.holds.count]
    exact .number _
  | countSince after =>
    refine ⟨h, .number (s.countSince after), .number (s.countSince after), ?_, rfl, .number _⟩
    simp only [MemoryStore.call, h.countSince hc, Except.map]

end Mirrors

/-! ## Whole sequences of calls -/

/-- The two stores answer every sequence of calls alike; the texts of timestamps in UTC are ordered as the
timestamps are. -/
theorem stores_interchangeable (json : Json) (sqlite : Sqlite) :
    (∀ calls : List StoreCall, (∀ c ∈ calls, c.Supported json) →
      List.Forall₂ Agree (responses MemoryStore.call {} calls)
        (responses (SqliteStore.call json sqlite) {} calls)) ∧
    ∀ d e : DateTime, d.utcoffset = some 0 → e.utcoffset = some 0 →
      (d.isoformat < e.isoformat ↔ e.gt d = .ok true) := by
  constructor
  · intro calls hcalls
    have hempty : Mirrors json {} {} := ⟨SqliteStore.holds_empty, by simp⟩
    exact responses_related (fun m s c h hc => h.call sqlite hc) hempty hcalls
  · intro d e hd he
    rw [DateTime.gt_iff_isoformat he hd, Except.ok.injEq, decide_eq_true_eq]

/-! ## Two records in the same second -/

def justAfterNoon : DateTime := ⟨{ noonFields 0 with microsecond := 1 }, by decide⟩

/-- A table that lists its rows backwards. -/
def lastFirst : Sqlite where
  order := List.reverse
  order_perm := List.reverse_perm

/-- The first record has no fraction in its timestamp. -/
def sameSecond : List StoreCall :=
  [.save (recordAt noon), .save (recordAt justAfterNoon), .getAll,
    .getByType "resize", .count, .countSince noon]

theorem recordAt_interchangeable {d : DateTime} (h : d.utcoffset = some 0) :
    (recordAt d).Interchangeable plainJson where
  toStorable := recordAt_storable d
  utc := h
  version := show "v0-legacy" ≠ "" by decide

theorem stores_interchangeable_same_second :
    List.Forall₂ Agree (responses MemoryStore.call {} sameSecond)
      (responses (SqliteStore.call plainJson lastFirst) {} sameSecond) := by
  refine (stores_interchangeable plainJson lastFirst).1 sameSecond fun c hc => ?_
  simp only [sameSecond, List.mem_cons, List.not_mem_nil, or_false] at hc
  rcases hc with rfl | rfl | rfl | rfl | rfl | rfl
  · exact recordAt_interchangeable rfl
  · exact recordAt_interchangeable rfl
  · trivial
  · trivial
  · trivial
  · rfl

end Chronoq.Ranker
