import Chronoq.Ranker.Preparation
import Chronoq.Ranker.Storage

/-! # What `SqliteStore` gives back for a saved record

`_row_to_record` tags the timestamp of a row as UTC whatever its offset is, and takes an empty
`feature_schema_version` for a missing one. Every other field comes back as it was saved.

* `SavedRecord.Equal`: equality of records, timestamps being equal if they denote the same instant.
* `restores_iff`: a saved record comes back equal exactly if its offset is zero and its version is not
  empty. -/

namespace Chronoq.Ranker
open Foundations

set_option autoImplicit false

/-! ## Timestamps -/

namespace DateTime
variable {d : DateTime}

theorem instant_of_offset {offset : ℤ} (h : d.utcoffset = some offset) :
    d.instant = some (d.wall - offset) := by
  rw [instant, h, Option.map_some]

@[simp] theorem replaceUtc_instant (d : DateTime) : d.replaceUtc.instant = some d.wall := by
  rw [instant_of_offset (rfl : d.replaceUtc.utcoffset = some 0), sub_zero]
  rfl

theorem replaceUtc_of_utc (h : d.utcoffset = some 0) : d.replaceUtc = d := by
  obtain ⟨fields, valid⟩ := d
  obtain ⟨year, month, day, hour, minute, second, microsecond, utcoffset⟩ := fields
  subst h
  rfl

theorem eq_iff_instant {e : DateTime} (h : e.utcoffset ≠ none) :
    d.eq e ↔ d.instant = e.instant := by
  obtain ⟨offset, hoffset⟩ := Option.ne_none_iff_exists'.mp h
  rw [eq, instant_of_offset hoffset]
  cases d.instant with
  | none => simp
  | some t => simp

theorem gt_congr {e : DateTime} (h : d.instant = e.instant) (h' : d.utcoffset ≠ none) (after : DateTime) :
    d.gt after = e.gt after := by
  obtain ⟨offset, hoffset⟩ := Option.ne_none_iff_exists'.mp h'
  rw [gt, gt, ← h, instant_of_offset hoffset]
  cases after.instant <;> rfl

/-- A timestamp is later than a cutoff in UTC exactly if its text is, both being in UTC. -/
theorem gt_iff_isoformat {after : DateTime} (hd : d.utcoffset = some 0)
    (hafter : after.utcoffset = some 0) :
    d.gt after = .ok (decide (after.isoformat < d.isoformat)) := by
  rw [gt, instant_of_offset hd, instant_of_offset hafter, sub_zero, sub_zero]
  simp only [isoformat_lt_iff hafter hd]

end DateTime

/-! ## Records -/

/-- The records are equal in every field. -/
structure SavedRecord.Equal (r r' : SavedRecord) : Prop where
  taskType : r.taskType = r'.taskType
  payloadSize : r.payloadSize = r'.payloadSize
  actualMs : r.actualMs = r'.actualMs
  metadata : r.metadata = r'.metadata
  recordedAt : r.recordedAt.eq r'.recordedAt
  modelVersionAtRecord : r.modelVersionAtRecord = r'.modelVersionAtRecord
  groupId : r.groupId = r'.groupId
  rankLabel : r.rankLabel = r'.rankLabel
  featureSchemaVersion : r.featureSchemaVersion = r'.featureSchemaVersion

namespace SqliteStore
variable {json : Json} {sqlite : Sqlite} {s : SqliteStore} {r : SavedRecord}

/-- The stores that records have been saved to. -/
inductive Written (json : Json) : SqliteStore → Prop
  | empty : Written json {}
  | save {s : SqliteStore} {r : SavedRecord} (h : Written json s) (hr : r.Storable json) :
    Written json (s.save json r).1

theorem Written.holds (h : Written json s) : ∃ records, Holds json records s := by
  induction h with
  | empty => exact ⟨[], holds_empty⟩
  | save h hr ih =>
    obtain ⟨records, hholds⟩ := ih
    exact ⟨_, (hholds.save hr).1⟩

/-- What is to come back for `r` once it is saved: a record equal to it, with the same instant and so in
the same window and after the same cutoffs, and a count of its own in `count_since`. -/
structure Restores (json : Json) (sqlite : Sqlite) (s : SqliteStore) (r : SavedRecord) : Prop where
  saved : (s.save json r).2 = .ok ()
  restored : ∃ before after r', s.getAll json sqlite = .ok before ∧
    (s.save json r).1.getAll json sqlite = .ok after ∧ after.Perm (r' :: before) ∧ r'.Equal r ∧
      r'.recordedAt.instant = r.recordedAt.instant ∧
      r'.recordedAt.instant.map windowBucket = r.recordedAt.instant.map windowBucket ∧
      ∀ cutoff, r'.recordedAt.gt cutoff = r.recordedAt.gt cutoff
  counted : ∀ cutoff : DateTime, cutoff.utcoffset = some 0 →
    (s.save json r).1.countSince cutoff =
      s.countSince cutoff + if r.recordedAt.gt cutoff = .ok true then 1 else 0

/-- The row of a saved record is decoded to `r.decoded`, and to nothing else. -/
theorem getAll_save (sqlite : Sqlite) (h : Written json s) (hr : r.Storable json) :
    ∃ before after, s.getAll json sqlite = .ok before ∧
      (s.save json r).1.getAll json sqlite = .ok after ∧ after.Perm (r.decoded :: before) := by
  obtain ⟨records, hholds⟩ := h.holds
  obtain ⟨before, hbefore, hperm⟩ := hholds.getAll sqlite
  obtain ⟨after, hafter, hperm'⟩ := (hholds.save hr).1.getAll sqlite
  refine ⟨before, after, hbefore, hafter, hperm'.trans ?_⟩
  rw [List.map_append]
  exact (List.perm_append_singleton _ _).trans (hperm.symm.cons _)

theorem countSince_save (h : Written json s) (hr : r.Storable json) (cutoff : DateTime) :
    (s.save json r).1.countSince cutoff =
      s.countSince cutoff + if cutoff.isoformat < r.recordedAt.isoformat then 1 else 0 := by
  obtain ⟨records, hholds⟩ := h.holds
  rw [(hholds.save hr).1.countSince, hholds.countSince, List.countP_append, List.countP_singleton]
  simp only [decide_eq_true_eq]

/-- The decoding of a record with an aware timestamp is equal to it exactly if its offset is zero and its
version is not empty. -/
theorem decoded_equal_iff (haware : r.recordedAt.utcoffset ≠ none) :
    r.decoded.Equal r ↔ r.recordedAt.utcoffset = some 0 ∧ r.featureSchemaVersion ≠ "" := by
  obtain ⟨offset, hoffset⟩ := Option.ne_none_iff_exists'.mp haware
  have hinstant : r.decoded.recordedAt.eq r.recordedAt ↔ r.recordedAt.utcoffset = some 0 := by
    rw [DateTime.eq_iff_instant haware]
    show r.recordedAt.replaceUtc.instant = _ ↔ _
    rw [DateTime.replaceUtc_instant, DateTime.instant_of_offset hoffset, hoffset, Option.some.injEq,
      Option.some.injEq]
    omega
  have hversion : r.decoded.featureSchemaVersion = r.featureSchemaVersion ↔
      r.featureSchemaVersion ≠ "" := by
    show (if r.featureSchemaVersion = "" then "v0-legacy" else r.featureSchemaVersion) = _ ↔ _
    split
    · next hempty =>
      rw [hempty]
      decide
    · next hversion => exact iff_of_true rfl hversion
  constructor
  · intro h
    exact ⟨hinstant.mp h.recordedAt, hversion.mp h.featureSchemaVersion⟩
  · rintro ⟨hutc, hne⟩
    exact ⟨rfl, rfl, rfl, rfl, hinstant.mpr hutc, rfl, rfl, rfl, hversion.mpr hne⟩

/-- What a store restores for a record is its decoding. -/
theorem Restores.decoded_equal (h : Written json s) (hr : r.Storable json)
    (hrestores : s.Restores json sqlite r) : r.decoded.Equal r := by
  obtain ⟨before, after, hbefore, hafter, hperm⟩ := getAll_save sqlite h hr
  obtain ⟨before', after', r', hbefore', hafter', hperm', hequal, -⟩ := hrestores.restored
  rw [hbefore, Except.ok.injEq] at hbefore'
  rw [hafter, Except.ok.injEq] at hafter'
  subst hbefore' hafter'
  -- what was there before has not changed, so the new record is the decoded one
  have hnew : r.decoded = r' := by
    have hsame := Multiset.coe_eq_coe.mpr (hperm.symm.trans hperm')
    rwa [← Multiset.cons_coe, ← Multiset.cons_coe, Multiset.cons_inj_left] at hsame
  rw [hnew]
  exact hequal

/-- A saved record comes back as it was exactly if its timestamp is in UTC and its feature schema version
is not empty. -/
theorem restores_iff (h : Written json s) (hr : r.Storable json)
    (haware : r.recordedAt.utcoffset ≠ none) :
    s.Restores json sqlite r ↔
      r.recordedAt.utcoffset = some 0 ∧ r.featureSchemaVersion ≠ "" := by
  rw [← decoded_equal_iff haware]
  refine ⟨Restores.decoded_equal h hr, fun hequal => ?_⟩
  obtain ⟨before, after, hbefore, hafter, hperm⟩ := getAll_save sqlite h hr
  have hutc := ((decoded_equal_iff haware).mp hequal).1
  have hinstant : r.decoded.recordedAt.instant = r.recordedAt.instant :=
    (DateTime.eq_iff_instant haware).mp hequal.recordedAt
  refine ⟨?_, ⟨before, after, r.decoded, hbefore, hafter, hperm, hequal, hinstant, ?_, ?_⟩, ?_⟩
  · obtain ⟨records, hholds⟩ := h.holds
    exact (hholds.save hr).2
  · rw [hinstant]
  · exact DateTime.gt_congr hinstant (Option.some_ne_none 0)
  · intro cutoff hcutoff
    rw [countSince_save h hr cutoff, DateTime.gt_iff_isoformat hutc hcutoff]
    simp only [Except.ok.injEq, decide_eq_true_eq]

end SqliteStore

/-! ## A timestamp with an offset -/

def depthFive : Dict String PyValue := Finmap.singleton "queue_depth" (.int 5)

/-- `json` on two dictionaries. -/
def plainJson : Json where
  dumps metadata :=
    if metadata = ∅ then .ok "\x7b\x7d"
    else if metadata = depthFive then .ok "\x7b\"queue_depth\": 5\x7d"
    else .error (.raised "TypeError")
  loads text :=
    if text = "\x7b\x7d" then .ok ∅
    else if text = "\x7b\"queue_depth\": 5\x7d" then .ok depthFive
    else .error (.raised "JSONDecodeError")
  dumps_ne_empty := by
    intro metadata text h
    split at h
    · cases h
      decide
    · split at h
      · cases h
        decide
      · cases h

def asInserted : Sqlite where
  order := id
  order_perm := List.Perm.refl

/-- Noon of the first of April 2026, local time. -/
def noonFields (utcoffset : ℤ) : DateFields where
  year := 2026
  month := 4
  day := 1
  hour := 12
  minute := 0
  second := 0
  microsecond := 0
  utcoffset := some utcoffset

def noon : DateTime := ⟨noonFields 0, by decide⟩

def noonTwoHoursAhead : DateTime := ⟨noonFields 7200000000, by decide⟩

example : noonTwoHoursAhead.isoformat = "2026-04-01T12:00:00+02:00" := by decide

def recordAt (recordedAt : DateTime) : SavedRecord where
  taskType := "resize"
  payloadSize := 512
  actualMs := .finite 1
  metadata := depthFive
  recordedAt := recordedAt

theorem recordAt_storable (recordedAt : DateTime) : (recordAt recordedAt).Storable plainJson where
  metadata := ⟨_, rfl, rfl⟩
  payloadSize := show isInt64 512 by decide
  rankLabel := by simp [recordAt]
  actualMs := by simp [recordAt]

namespace SqliteStore

theorem restores_iff_noon :
    ({} : SqliteStore).Restores plainJson asInserted (recordAt noon) :=
  (restores_iff .empty (recordAt_storable noon) (Option.some_ne_none 0)).mpr ⟨rfl, by decide⟩

/-- Noon at an offset of two hours comes back as noon in UTC, which is two hours later. -/
theorem offset_not_restored :
    (recordAt noonTwoHoursAhead).Storable plainJson ∧
      (recordAt noonTwoHoursAhead).recordedAt.utcoffset = some 7200000000 ∧
      ¬ ({} : SqliteStore).Restores plainJson asInserted (recordAt noonTwoHoursAhead) := by
  refine ⟨recordAt_storable _, rfl, fun hrestores => ?_⟩
  have hequal := (Restores.decoded_equal .empty (recordAt_storable _) hrestores).recordedAt
  rw [DateTime.eq_iff_instant (Option.some_ne_none 7200000000)] at hequal
  revert hequal
  decide

end SqliteStore

end Chronoq.Ranker
