import Chronoq.Ranker.Features

/-! # Extraction at scoring time and at training time

`DefaultExtractor.extract` reads the queue state from a context and the time from the clock,
`extract_from_record` reads both from a record. A caller who records a candidate with its payload size,
its features overridden by the fields of the context, and the time of scoring gets the same dictionary
back.

* `contextItems`: the fields of a context as metadata entries.
* `lookup_update_of_mem`, `lookup_update_of_notMem`: what a dictionary holds after `update`. -/

namespace Chronoq.Ranker
open Foundations

set_option autoImplicit false

/-! ## Updating a dictionary -/

/-- `d.update(items)` -/
def update {κ ν : Type} [DecidableEq κ] (d : Dict κ ν) (items : List (κ × ν)) : Dict κ ν :=
  items.foldl (fun d item => d.insert item.1 item.2) d

section Update
variable {κ ν : Type} [DecidableEq κ] {d : Dict κ ν} {items : List (κ × ν)} {k : κ}

theorem lookup_update_of_notMem (h : k ∉ items.map Prod.fst) :
    (update d items).lookup k = d.lookup k := by
  induction items generalizing d with
  | nil => rfl
  | cons item items ih =>
    rw [List.map_cons, List.mem_cons, not_or] at h
    have hrest : (update (d.insert item.1 item.2) items).lookup k =
        (d.insert item.1 item.2).lookup k := ih h.2
    rw [← Finmap.lookup_insert_of_ne d h.1]
    exact hrest

theorem lookup_update_of_mem (hnodup : (items.map Prod.fst).Nodup) {v : ν} (h : (k, v) ∈ items) :
    (update d items).lookup k = some v := by
  induction items generalizing d with
  | nil => cases h
  | cons item items ih =>
    rw [List.map_cons, List.nodup_cons] at hnodup
    rcases List.mem_cons.mp h with rfl | h
    · -- no later entry writes this key again
      have hrest : (update (d.insert k v) items).lookup k = (d.insert k v).lookup k :=
        lookup_update_of_notMem hnodup.1
      exact hrest.trans (Finmap.lookup_insert d)
    · exact ih hnodup.2 h

theorem mem_update : k ∈ update d items ↔ k ∈ d ∨ k ∈ items.map Prod.fst := by
  induction items generalizing d with
  | nil => simp [update]
  | cons item items ih =>
    have hrest : k ∈ update (d.insert item.1 item.2) items ↔
        k ∈ d.insert item.1 item.2 ∨ k ∈ items.map Prod.fst := ih
    rw [Finmap.mem_insert] at hrest
    rw [List.map_cons, List.mem_cons]
    refine hrest.trans ?_
    tauto

end Update

/-! ## A context as metadata -/

def contextItems (ctx : QueueContext) : List (String × PyValue) :=
  [("queue_depth", .int ctx.queueDepth),
    ("queue_depth_same_type", .int ctx.queueDepthSameType),
    ("worker_count_busy", .int ctx.workerCountBusy),
    ("worker_count_idle", .int ctx.workerCountIdle),
    ("recent_mean_ms_this_type", .float ctx.recentMeanMsThisType),
    ("recent_p95_ms_this_type", .float ctx.recentP95MsThisType),
    ("recent_count_this_type", .int ctx.recentCountThisType),
    ("time_since_last_retrain_s", .float ctx.timeSinceLastRetrainS)]

def contextKeys : List String :=
  ["queue_depth", "queue_depth_same_type", "worker_count_busy", "worker_count_idle",
    "recent_mean_ms_this_type", "recent_p95_ms_this_type", "recent_count_this_type",
    "time_since_last_retrain_s"]

theorem contextItems_keys (ctx : QueueContext) : (contextItems ctx).map Prod.fst = contextKeys := rfl

/-- The metadata of a candidate that is recorded with the context it was scored in. -/
def metadataWith (features : Dict String PyValue) (ctx : QueueContext) : Dict String PyValue :=
  update features (contextItems ctx)

section Metadata
variable {features : Dict String PyValue} {ctx : QueueContext}

theorem lookup_metadataWith_of_mem {key : String} {v : PyValue} (h : (key, v) ∈ contextItems ctx) :
    (metadataWith features ctx).lookup key = some v := by
  refine lookup_update_of_mem ?_ h
  rw [contextItems_keys]
  decide

theorem lookup_metadataWith_of_notMem {key : String} (h : key ∉ contextKeys) :
    (metadataWith features ctx).lookup key = features.lookup key :=
  lookup_update_of_notMem h

/-- `_as_float` lets an overflow through. -/
theorem asFloat_int (n : ℤ) : asFloat (some (.int n)) = floatOfInt n := by
  have htoFloat : ((some (PyValue.int n)).getD .none).toFloat = floatOfInt n := rfl
  rw [asFloat, htoFloat]
  cases hfloat : floatOfInt n with
  | ok x => rfl
  | error exc =>
    rw [floatOfInt_error hfloat]
    rfl

/-- A count of the context is read back as a float. -/
theorem asFloat_metadataWith_int {key : String} {n : ℤ} (h : (key, .int n) ∈ contextItems ctx) :
    asFloat ((metadataWith features ctx).lookup key) = floatOfInt n := by
  rw [lookup_metadataWith_of_mem h, asFloat_int]

theorem asFloat_metadataWith_float {key : String} {x : ExtFloat}
    (h : (key, .float x) ∈ contextItems ctx) :
    asFloat ((metadataWith features ctx).lookup key) = .ok x := by
  rw [lookup_metadataWith_of_mem h]
  rfl

end Metadata

/-! ## The two dictionaries -/

theorem mem_dictOf {items : List (String × FeatureValue)} {col : String} :
    col ∈ dictOf items ↔ col ∈ items.map Prod.fst := by
  have hmem : col ∈ dictOf items ↔ col ∈ (∅ : FeatureDict) ∨ col ∈ items.map Prod.fst := mem_update
  rw [hmem, or_iff_right Finmap.notMem_empty]

theorem mem_of_dictDisplay {items : List (String × Except PyException FeatureValue)}
    {fdict : FeatureDict} (h : dictDisplay items = .ok fdict) {col : String} :
    col ∈ fdict ↔ col ∈ items.map Prod.fst := by
  obtain ⟨pairs, hpairs, rfl⟩ := exists_of_map_ok h
  have hkeys : ∀ {items : List (String × Except PyException FeatureValue)} {pairs},
      List.Forall₂ (fun item pair => item.2.map (Prod.mk item.1) = .ok pair) items pairs →
        pairs.map Prod.fst = items.map Prod.fst := by
    intro items pairs hall
    induction hall with
    | nil => rfl
    | cons hpair _ ih =>
      obtain ⟨v, -, rfl⟩ := exists_of_map_ok hpair
      rw [List.map_cons, List.map_cons, ih]
  rw [mem_dictOf, hkeys (mapM_eq_ok_iff.mp hpairs)]

theorem defaultExtractFromRecord_eq (text : PyValue → String) {features : Dict String PyValue}
    {record : TaskRecord} (ctx : QueueContext) (hmetadata : record.metadata = metadataWith features ctx)
    (taskId : String) (hsize : features.lookup "payload_size" = some (.int record.payloadSize)) :
    defaultExtractFromRecord text record =
      defaultExtract text ⟨taskId, record.taskType, features⟩ ctx record.recordedAt := by
  have htier : (metadataWith features ctx).lookup "user_tier" = features.lookup "user_tier" :=
    lookup_metadataWith_of_notMem (by decide)
  have hprompt : (metadataWith features ctx).lookup "prompt_length" =
      features.lookup "prompt_length" := lookup_metadataWith_of_notMem (by decide)
  have hretry : (metadataWith features ctx).lookup "retry_count" = features.lookup "retry_count" :=
    lookup_metadataWith_of_notMem (by decide)
  -- the context is read back field by field
  have hdepth : asFloat ((metadataWith features ctx).lookup "queue_depth") =
      floatOfInt ctx.queueDepth := asFloat_metadataWith_int (by simp [contextItems])
  have hdepthType : asFloat ((metadataWith features ctx).lookup "queue_depth_same_type") =
      floatOfInt ctx.queueDepthSameType := asFloat_metadataWith_int (by simp [contextItems])
  have hbusy : asFloat ((metadataWith features ctx).lookup "worker_count_busy") =
      floatOfInt ctx.workerCountBusy := asFloat_metadataWith_int (by simp [contextItems])
  have hidle : asFloat ((metadataWith features ctx).lookup "worker_count_idle") =
      floatOfInt ctx.workerCountIdle := asFloat_metadataWith_int (by simp [contextItems])
  have hmean : asFloat ((metadataWith features ctx).lookup "recent_mean_ms_this_type") =
      .ok ctx.recentMeanMsThisType := asFloat_metadataWith_float (by simp [contextItems])
  have hp95 : asFloat ((metadataWith features ctx).lookup "recent_p95_ms_this_type") =
      .ok ctx.recentP95MsThisType := asFloat_metadataWith_float (by simp [contextItems])
  have hcount : asFloat ((metadataWith features ctx).lookup "recent_count_this_type") =
      floatOfInt ctx.recentCountThisType := asFloat_metadataWith_int (by simp [contextItems])
  have hsince : asFloat ((metadataWith features ctx).lookup "time_since_last_retrain_s") =
      .ok ctx.timeSinceLastRetrainS := asFloat_metadataWith_float (by simp [contextItems])
  rw [defaultExtractFromRecord, defaultExtract, hmetadata]
  dsimp only
  rw [htier, hprompt, hretry, hsize, asFloat_int, hdepth, hdepthType, hbusy, hidle, hmean, hp95, hcount, hsince]
  rfl

/-- The candidate as it is scored and the record of it give one dictionary, with the fifteen columns of
the schema, or both raise the same. -/
theorem extraction_symmetric (text : PyValue → String) {candidate : TaskCandidate}
    {record : TaskRecord} (ctx : QueueContext) (now : Instant)
    (htype : record.taskType = candidate.taskType)
    (hsize : candidate.features.lookup "payload_size" = some (.int record.payloadSize))
    (hmetadata : record.metadata = metadataWith candidate.features ctx)
    (hat : record.recordedAt = now) :
    defaultExtract text candidate ctx now = defaultExtractFromRecord text record ∧
      ∀ fdict, defaultExtract text candidate ctx now = .ok fdict →
        ∀ col, col ∈ fdict ↔ col ∈ numericCols ∨ col ∈ catCols := by
  constructor
  · rw [defaultExtractFromRecord_eq text ctx hmetadata candidate.taskId hsize, htype, hat]
  · intro fdict hfdict col
    rw [mem_of_dictDisplay hfdict]
    simp [numericCols, catCols]
    tauto

/-! ## A candidate with values that are no numbers -/

def sampleCandidate : TaskCandidate where
  taskId := "c-1"
  taskType := "resize"
  features := update ∅ [("payload_size", .int 512), ("prompt_length", .str "long"),
    ("retry_count", .none), ("user_tier", .str ""), ("queue_depth", .str "deep")]

def sampleContext : QueueContext := { queueDepth := 3, recentMeanMsThisType := 5 / 2 }

theorem extraction_symmetric_sample :
    defaultExtract (fun _ => "") sampleCandidate sampleContext 0 =
      defaultExtractFromRecord (fun _ => "")
        { taskType := "resize"
          payloadSize := 512
          actualMs := 40
          metadata := metadataWith sampleCandidate.features sampleContext
          recordedAt := 0 } :=
  (extraction_symmetric (fun _ => "") sampleContext 0 rfl (by decide) rfl rfl).1

end Chronoq.Ranker
