import Chronoq.Foundations.Fallible
import Chronoq.Ranker.Datetime

/-! # `storage/`: the telemetry stores

`MemoryStore` is a list of records, `SqliteStore` a table of rows that a record is encoded to and decoded
from, with a default for a text or a metadata column that is empty.

* `SavedRecord`: a `TaskRecord` as the stores see it, with a `datetime` and any float as its duration.
* `Json`: `json.dumps` and `json.loads` on metadata, of which only that `dumps` writes something is used.
* `Sqlite`: the order in which a SELECT without ORDER BY lists its rows. Values are stored as they are
  given; texts are compared by their bytes, which is by their characters. -/

namespace Chronoq.Ranker
open Foundations

set_option autoImplicit false

/-! ## Records -/

inductive PyFloat
  | finite (x : ℚ)
  | infinite (negative : Bool)
  | nan
  deriving DecidableEq

structure SavedRecord where
  taskType : String
  payloadSize : ℤ
  actualMs : PyFloat
  metadata : Dict String PyValue := ∅
  recordedAt : DateTime
  modelVersionAtRecord : String := ""
  groupId : Option String := none
  rankLabel : Option ℤ := none
  featureSchemaVersion : String := "v0-legacy"
  deriving DecidableEq

/-! ## `MemoryStore` -/

structure MemoryStore where
  records : List SavedRecord := []

namespace MemoryStore

def save (s : MemoryStore) (r : SavedRecord) : MemoryStore := { records := s.records ++ [r] }

def getAll (s : MemoryStore) : List SavedRecord := s.records

def getByType (s : MemoryStore) (taskType : String) : List SavedRecord :=
  s.records.filter fun r => r.taskType = taskType

def count (s : MemoryStore) : ℕ := s.records.length

/-- Comparing an aware with a naive timestamp raises. -/
def countSince (s : MemoryStore) (after : DateTime) : Except PyException ℕ :=
  (s.records.mapM fun (r : SavedRecord) => r.recordedAt.gt after).map fun later => later.countP id

end MemoryStore

/-! ## `SqliteStore` -/

structure Json where
  dumps : Dict String PyValue → Except PyException String
  loads : String → Except PyException (Dict String PyValue)
  dumps_ne_empty : ∀ {metadata text}, dumps metadata = .ok text → text ≠ ""

/-- `json.loads(json.dumps(metadata)) == metadata` -/
def Json.RoundTrips (json : Json) (metadata : Dict String PyValue) : Prop :=
  ∃ text, json.dumps metadata = .ok text ∧ json.loads text = .ok metadata

/-- A row of the table `telemetry`; a column that may be NULL is optional. -/
structure TelemetryRow where
  taskType : String
  payloadSize : Option ℤ
  actualMs : PyFloat
  metadataJson : Option String
  recordedAt : String
  modelVersionAtRecord : Option String
  groupId : Option String
  rankLabel : Option ℤ
  featureSchemaVersion : Option String

structure Sqlite where
  order : List TelemetryRow → List TelemetryRow
  order_perm : ∀ rows, (order rows).Perm rows

structure SqliteStore where
  rows : List TelemetryRow := []

/-- `value or default`, for a text column -/
def orDefault (value : Option String) (default : String) : String :=
  match value with
  | some text => if text = "" then default else text
  | none => default

/-- The integers that an INTEGER column takes. -/
def isInt64 (n : ℤ) : Prop := -2 ^ 63 ≤ n ∧ n < 2 ^ 63

instance (n : ℤ) : Decidable (isInt64 n) := inferInstanceAs (Decidable (_ ∧ _))

namespace SqliteStore
variable (json : Json) (sqlite : Sqlite)

def rowOf (r : SavedRecord) (metadataJson : String) : TelemetryRow where
  taskType := r.taskType
  payloadSize := some r.payloadSize
  actualMs := r.actualMs
  metadataJson := some metadataJson
  recordedAt := r.recordedAt.isoformat
  modelVersionAtRecord := some r.modelVersionAtRecord
  groupId := r.groupId
  rankLabel := r.rankLabel
  featureSchemaVersion := some r.featureSchemaVersion

/-- Integers of more than 64 bits do not fit a column, and NaN is stored as NULL, which `actual_ms` is
not allowed to be. -/
def save (s : SqliteStore) (r : SavedRecord) : SqliteStore × Except PyException Unit :=
  match json.dumps r.metadata with
  | .error exc => (s, .error exc)
  | .ok metadataJson =>
    if ¬ isInt64 r.payloadSize ∨ ∃ label ∈ r.rankLabel, ¬ isInt64 label then
      (s, .error (.raised "OverflowError"))
    else if r.actualMs = .nan then (s, .error (.raised "IntegrityError"))
    else ({ rows := s.rows ++ [rowOf r metadataJson] }, .ok ())

def metadataOf (metadataJson : Option String) : Except PyException (Dict String PyValue) :=
  match metadataJson with
  | some text => if text = "" then .ok ∅ else json.loads text
  | none => .ok ∅

/-- `_row_to_record`; the schema refuses a payload size that is NULL. -/
def rowToRecord (row : TelemetryRow) : Except PyException SavedRecord := do
  let metadata ← metadataOf json row.metadataJson
  let recordedAt ← fromisoformat row.recordedAt
  let some payloadSize := row.payloadSize | .error (.raised "ValidationError")
  return {
    taskType := row.taskType
    payloadSize := payloadSize
    actualMs := row.actualMs
    metadata := metadata
    recordedAt := recordedAt.replaceUtc
    modelVersionAtRecord := orDefault row.modelVersionAtRecord ""
    groupId := row.groupId
    rankLabel := row.rankLabel
    featureSchemaVersion := orDefault row.featureSchemaVersion "v0-legacy" }

def getAll (s : SqliteStore) : Except PyException (List SavedRecord) :=
  (sqlite.order s.rows).mapM (rowToRecord json)

def getByType (s : SqliteStore) (taskType : String) : Except PyException (List SavedRecord) :=
  (sqlite.order (s.rows.filter fun row => row.taskType = taskType)).mapM (rowToRecord json)

def count (s : SqliteStore) : ℕ := s.rows.length

/-- The cutoff and the column are compared as texts. -/
def countSince (s : SqliteStore) (after : DateTime) : ℕ :=
  s.rows.countP fun row => after.isoformat < row.recordedAt

end SqliteStore

/-! ## Encoding and decoding -/

/-- What the columns take, and `json` brings back. -/
structure SavedRecord.Storable (json : Json) (r : SavedRecord) : Prop where
  metadata : json.RoundTrips r.metadata
  payloadSize : isInt64 r.payloadSize
  rankLabel : ∀ label ∈ r.rankLabel, isInt64 label
  actualMs : r.actualMs ≠ .nan

/-- The record that is decoded from the row of `r`. -/
def SavedRecord.decoded (r : SavedRecord) : SavedRecord :=
  { r with
    recordedAt := r.recordedAt.replaceUtc
    featureSchemaVersion :=
      if r.featureSchemaVersion = "" then "v0-legacy" else r.featureSchemaVersion }

namespace SqliteStore
variable {json : Json}

/-- The row holds `r`. -/
structure Encodes (json : Json) (r : SavedRecord) (row : TelemetryRow) : Prop where
  decodes : rowToRecord json row = .ok r.decoded
  taskType : row.taskType = r.taskType
  recordedAt : row.recordedAt = r.recordedAt.isoformat

/-- The rows hold the records one by one. -/
def Holds (json : Json) (records : List SavedRecord) (s : SqliteStore) : Prop :=
  List.Forall₂ (Encodes json) records s.rows

theorem encodes_rowOf {r : SavedRecord} {text : String} (htext : text ≠ "")
    (hloads : json.loads text = .ok r.metadata) : Encodes json r (rowOf r text) := by
  refine ⟨?_, rfl, rfl⟩
  have hversion : orDefault (some r.modelVersionAtRecord) "" = r.modelVersionAtRecord := by
    unfold orDefault
    dsimp only
    split
    · next hempty => exact hempty.symm
    · rfl
  simp only [rowToRecord, rowOf, metadataOf, if_neg htext, hloads, fromisoformat_isoformat, hversion]
  rfl

theorem save_storable (s : SqliteStore) {r : SavedRecord} (h : r.Storable json) :
    ∃ row, Encodes json r row ∧ s.save json r = ({ rows := s.rows ++ [row] }, .ok ()) := by
  obtain ⟨text, hdumps, hloads⟩ := h.metadata
  refine ⟨rowOf r text, encodes_rowOf (json.dumps_ne_empty hdumps) hloads, ?_⟩
  have hfits : ¬ (¬ isInt64 r.payloadSize ∨ ∃ label ∈ r.rankLabel, ¬ isInt64 label) := by
    rintro (hsize | ⟨label, hlabel, hbig⟩)
    · exact hsize h.payloadSize
    · exact hbig (h.rankLabel label hlabel)
  unfold save
  rw [hdumps]
  dsimp only
  rw [if_neg hfits, if_neg h.actualMs]

variable {records : List SavedRecord} {s : SqliteStore}

theorem holds_empty : Holds json [] {} := .nil

theorem Holds.save {r : SavedRecord} (h : Holds json records s) (hr : r.Storable json) :
    Holds json (records ++ [r]) (s.save json r).1 ∧ (s.save json r).2 = .ok () := by
  obtain ⟨row, hrow, hsave⟩ := s.save_storable hr
  rw [hsave]
  exact ⟨List.rel_append h (.cons hrow .nil), rfl⟩

/-- A SELECT of rows that hold records gives their decodings, in some order. -/
theorem mapM_order_of_encodes (sqlite : Sqlite) {rows : List TelemetryRow}
    (h : List.Forall₂ (Encodes json) records rows) :
    ∃ decoded, (sqlite.order rows).mapM (rowToRecord json) = .ok decoded ∧
      decoded.Perm (records.map SavedRecord.decoded) := by
  have hdecodes : List.Forall₂ (fun row r' => rowToRecord json row = .ok r') rows
      (records.map SavedRecord.decoded) := by
    rw [List.forall₂_map_right_iff]
    exact h.flip.imp fun _ _ hrow => hrow.decodes
  obtain ⟨decoded, hforall, hperm⟩ := List.perm_comp_forall₂ (sqlite.order_perm rows) hdecodes
  exact ⟨decoded, mapM_eq_ok_iff.mpr hforall, hperm⟩

theorem Holds.getAll (sqlite : Sqlite) (h : Holds json records s) :
    ∃ decoded, s.getAll json sqlite = .ok decoded ∧
      decoded.Perm (records.map SavedRecord.decoded) :=
  mapM_order_of_encodes sqlite h

theorem Holds.getByType (sqlite : Sqlite) (h : Holds json records s) (taskType : String) :
    ∃ decoded, s.getByType json sqlite taskType = .ok decoded ∧
      decoded.Perm ((records.filter fun r => r.taskType = taskType).map SavedRecord.decoded) := by
  refine mapM_order_of_encodes sqlite (List.rel_filter ?_ h)
  intro r row hrow
  simp only [decide_eq_true_eq, hrow.taskType]

theorem Holds.count (h : Holds json records s) : s.count = records.length :=
  h.length_eq.symm

theorem Holds.countSince (h : Holds json records s) (after : DateTime) :
    s.countSince after =
      records.countP fun r => after.isoformat < r.recordedAt.isoformat := by
  have hfilter := List.rel_filter
    (p := fun r : SavedRecord => decide (after.isoformat < r.recordedAt.isoformat))
    (q := fun row : TelemetryRow => decide (after.isoformat < row.recordedAt))
    (fun r row hrow => by simp only [decide_eq_true_eq, hrow.recordedAt]) h
  rw [SqliteStore.countSince, List.countP_eq_length_filter, List.countP_eq_length_filter]
  exact hfilter.length_eq.symm

end SqliteStore

end Chronoq.Ranker
