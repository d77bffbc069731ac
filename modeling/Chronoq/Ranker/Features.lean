import Chronoq.Foundations.Fallible
import Chronoq.Ranker.Schemas

/-! # `features.py`: feature dictionaries and the extractors

A value of a feature dictionary is used in three ways: `str(value)` for a categorical column,
`float(value)` for a numeric one, which may raise, and as an entry of a numpy array of doubles.
`FeatureValue` is what these see of it.

* `numericCols`, `catCols`: the columns of `DEFAULT_SCHEMA_V1`, in its order; `Readable`: the numeric
  ones are numbers.
* `FeatureExtractor`: the strategy object, with the columns its schema declares as numeric. Both of
  its methods are code of the caller, so they may raise; `extract` also reads the wall clock.
* `defaultExtractor`: the `DefaultExtractor` of the package. `text` is `str` on metadata values
  that are not strings. It reads a record exactly if no integer of it is beyond the range of a double
  (`defaultExtractor_reads_iff`).
* `legacyExtractFeatures`, `legacyExtractTrainingFeatures`: the four columns of the first version,
  which the gradient estimator still uses. -/

namespace Chronoq.Ranker
open Foundations

set_option autoImplicit false

/-! ## Feature dictionaries -/

/-- A `None`, or another value with its `str` and its `float`. -/
inductive FeatureValue
  | none
  | value (text : String) (number : Except PyException ExtFloat)

namespace FeatureValue

def asText : FeatureValue → String
  | .none => "None"
  | .value text _ => text

def asFloat : FeatureValue → Except PyException ExtFloat
  | .none => .error (.raised "TypeError")
  | .value _ number => number

/-- The entry of `np.array([value], dtype=np.float64)`, where a `None` becomes NaN. -/
def asEntry : FeatureValue → Except PyException ExtFloat
  | .none => .ok .nan
  | .value _ number => number

def ofText (text : String) : FeatureValue := .value text (PyValue.str text).toFloat

/-- A value of a caller, `text` being its `str`. -/
def ofPyValue (text : PyValue → String) : PyValue → FeatureValue
  | .none => .none
  | v => .value (text v) v.toFloat

end FeatureValue

abbrev FeatureDict := Dict String FeatureValue

def unknownCategorical : String := "__unknown__"

/-- `str(fdict.get(col, "__unknown__"))` -/
def textAt (fdict : FeatureDict) (col : String) : String :=
  ((fdict.lookup col).map FeatureValue.asText).getD unknownCategorical

/-- `float(fdict.get(col, 0.0))` -/
def floatAt (fdict : FeatureDict) (col : String) : Except PyException ExtFloat :=
  ((fdict.lookup col).map FeatureValue.asFloat).getD (.ok (.finite 0))

/-- The array entry of `fdict.get(col, 0.0)`. -/
def entryAt (fdict : FeatureDict) (col : String) : Except PyException ExtFloat :=
  ((fdict.lookup col).map FeatureValue.asEntry).getD (.ok (.finite 0))

def numericCols : List String :=
  ["payload_size", "hour_of_day", "day_of_week", "queue_depth", "queue_depth_same_type",
    "recent_mean_ms_this_type", "recent_p95_ms_this_type", "recent_count_this_type",
    "time_since_last_retrain_s", "worker_count_busy", "worker_count_idle", "prompt_length",
    "retry_count"]

def catCols : List String := ["task_type", "user_tier"]

/-- `float(...)` of every numeric column returns. -/
def Readable (fdict : FeatureDict) : Prop := ∀ col ∈ numericCols, ∃ x, floatAt fdict col = .ok x

/-- The number under `col`, where there is one. -/
def numberAt (fdict : FeatureDict) (col : String) : ExtFloat :=
  match floatAt fdict col with
  | .ok x => x
  | .error _ => .finite 0

/-- What is a number for `float(...)` is one for numpy. -/
theorem entryAt_of_floatAt {fdict : FeatureDict} {col : String} {x : ExtFloat}
    (h : floatAt fdict col = .ok x) : entryAt fdict col = .ok x := by
  unfold floatAt at h
  unfold entryAt
  cases hvalue : fdict.lookup col with
  | none => rwa [hvalue] at h
  | some v =>
    rw [hvalue] at h
    cases v with
    | none => cases h
    | value text number => exact h

/-! ## Time of day -/

def hourOf (t : Instant) : ℤ := t / 3600000000 % 24

/-- The day of the week, Monday being `0`; the epoch was a Thursday. -/
def weekdayOf (t : Instant) : ℤ := (t / 86400000000 + 3) % 7

/-! ## Extractors -/

structure FeatureExtractor where
  numeric : List String
  extract : TaskCandidate → QueueContext → Instant → Except PyException FeatureDict
  extractFromRecord : TaskRecord → Except PyException FeatureDict

/-- `_as_float`: missing and non-numeric values are `0.0`. An `OverflowError` is not caught. -/
def asFloat (value : Option PyValue) : Except PyException ExtFloat :=
  match (value.getD .none).toFloat with
  | .ok x => .ok x
  | .error exc => if exc.isTypeOrValueError then .ok (.finite 0) else .error exc

/-- `value or "__unknown__"`, for a metadata value. -/
def orUnknown (text : PyValue → String) : Option PyValue → FeatureValue
  | some (.str s) => .ofText (if s = "" then unknownCategorical else s)
  | some v => if v.truthy then .ofPyValue text v else .ofText unknownCategorical
  | none => .ofText unknownCategorical

/-- A float of a feature dictionary; its text is never looked at. -/
def floatValue (x : ExtFloat) : FeatureValue := .value "" (.ok x)

def dictOf (items : List (String × FeatureValue)) : FeatureDict :=
  items.foldl (fun fdict item => fdict.insert item.1 item.2) ∅

/-- A dictionary display, whose values are computed one by one. -/
def dictDisplay (items : List (String × Except PyException FeatureValue)) :
    Except PyException FeatureDict :=
  (items.mapM fun (item : String × Except PyException FeatureValue) =>
    item.2.map (Prod.mk item.1)).map dictOf

def defaultExtract (text : PyValue → String) (candidate : TaskCandidate) (ctx : QueueContext)
    (now : Instant) : Except PyException FeatureDict :=
  let feat := candidate.features
  dictDisplay [
    ("task_type", .ok (orUnknown text (some (.str candidate.taskType)))),
    ("user_tier", .ok (orUnknown text (feat.lookup "user_tier"))),
    ("payload_size", (asFloat (feat.lookup "payload_size")).map floatValue),
    ("prompt_length", (asFloat (feat.lookup "prompt_length")).map floatValue),
    ("retry_count", (asFloat (feat.lookup "retry_count")).map floatValue),
    ("hour_of_day", (floatOfInt (hourOf now)).map floatValue),
    ("day_of_week", (floatOfInt (weekdayOf now)).map floatValue),
    ("queue_depth", (floatOfInt ctx.queueDepth).map floatValue),
    ("queue_depth_same_type", (floatOfInt ctx.queueDepthSameType).map floatValue),
    ("worker_count_busy", (floatOfInt ctx.workerCountBusy).map floatValue),
    ("worker_count_idle", (floatOfInt ctx.workerCountIdle).map floatValue),
    ("recent_mean_ms_this_type", .ok (floatValue ctx.recentMeanMsThisType)),
    ("recent_p95_ms_this_type", .ok (floatValue ctx.recentP95MsThisType)),
    ("recent_count_this_type", (floatOfInt ctx.recentCountThisType).map floatValue),
    ("time_since_last_retrain_s", .ok (floatValue ctx.timeSinceLastRetrainS))]

def defaultExtractFromRecord (text : PyValue → String) (record : TaskRecord) :
    Except PyException FeatureDict :=
  let md := record.metadata
  dictDisplay [
    ("task_type", .ok (orUnknown text (some (.str record.taskType)))),
    ("user_tier", .ok (orUnknown text (md.lookup "user_tier"))),
    ("payload_size", (floatOfInt record.payloadSize).map floatValue),
    ("prompt_length", (asFloat (md.lookup "prompt_length")).map floatValue),
    ("retry_count", (asFloat (md.lookup "retry_count")).map floatValue),
    ("hour_of_day", (floatOfInt (hourOf record.recordedAt)).map floatValue),
    ("day_of_week", (floatOfInt (weekdayOf record.recordedAt)).map floatValue),
    ("queue_depth", (asFloat (md.lookup "queue_depth")).map floatValue),
    ("queue_depth_same_type", (asFloat (md.lookup "queue_depth_same_type")).map floatValue),
    ("worker_count_busy", (asFloat (md.lookup "worker_count_busy")).map floatValue),
    ("worker_count_idle", (asFloat (md.lookup "worker_count_idle")).map floatValue),
    ("recent_mean_ms_this_type", (asFloat (md.lookup "recent_mean_ms_this_type")).map floatValue),
    ("recent_p95_ms_this_type", (asFloat (md.lookup "recent_p95_ms_this_type")).map floatValue),
    ("recent_count_this_type", (asFloat (md.lookup "recent_count_this_type")).map floatValue),
    ("time_since_last_retrain_s", (asFloat (md.lookup "time_since_last_retrain_s")).map floatValue)]

def defaultExtractor (text : PyValue → String) : FeatureExtractor where
  numeric := numericCols
  extract := defaultExtract text
  extractFromRecord := defaultExtractFromRecord text

/-- Extracting the record returns, and every numeric column of the result is a number. -/
def FeatureExtractor.Reads (extractor : FeatureExtractor) (record : TaskRecord) : Prop :=
  ∃ fdict, extractor.extractFromRecord record = .ok fdict ∧ Readable fdict

def FeatureExtractor.ReadsAll (extractor : FeatureExtractor) (records : List TaskRecord) : Prop :=
  ∀ record ∈ records, extractor.Reads record

/-- The extractor raises no `InsufficientGroupsError` of its own, which a fit would take for too few
groups. -/
structure FeatureExtractor.Proper (extractor : FeatureExtractor) : Prop where
  extraction : ∀ {record exc}, extractor.extractFromRecord record = .error exc →
    exc.isInsufficientGroupsError = false
  conversion : ∀ {record fdict}, extractor.extractFromRecord record = .ok fdict →
    ∀ col ∈ numericCols, ∀ {exc}, floatAt fdict col = .error exc →
      exc.isInsufficientGroupsError = false

/-! ## What the extractors read -/

theorem dictDisplay_ok_iff {items : List (String × Except PyException FeatureValue)} :
    (∃ fdict, dictDisplay items = .ok fdict) ↔ ∀ item ∈ items, ∃ v, item.2 = .ok v := by
  rw [dictDisplay, exists_map_ok_iff, exists_mapM_ok_iff]
  exact forall₂_congr fun item _ => exists_map_ok_iff

theorem exists_of_dictDisplay_error {items : List (String × Except PyException FeatureValue)}
    {exc : PyException} (h : dictDisplay items = .error exc) : ∃ item ∈ items, item.2 = .error exc := by
  have hpairs : items.mapM (fun item => item.2.map (Prod.mk item.1)) = .error exc := by
    unfold dictDisplay at h
    cases hitems : items.mapM (fun item => item.2.map (Prod.mk item.1)) with
    | error exc' =>
      rw [hitems] at h
      exact congrArg Except.error (Except.error.inj h)
    | ok pairs =>
      rw [hitems] at h
      cases h
  obtain ⟨item, hitem, hexc⟩ := exists_of_mapM_error hpairs
  refine ⟨item, hitem, ?_⟩
  cases hvalue : item.2 with
  | error exc' =>
    rw [hvalue] at hexc
    exact congrArg Except.error (Except.error.inj hexc)
  | ok v =>
    rw [hvalue] at hexc
    cases hexc

/-- The value found under `col` is the default or one of those inserted there. -/
theorem floatAt_dictOf_of {P : Except PyException ExtFloat → Prop} (hdefault : P (.ok (.finite 0)))
    {items : List (String × FeatureValue)} {col : String}
    (h : ∀ item ∈ items, item.1 = col → P item.2.asFloat) : P (floatAt (dictOf items) col) := by
  have hfold : ∀ (items : List (String × FeatureValue)) (fdict : FeatureDict),
      (∀ item ∈ items, item.1 = col → P item.2.asFloat) → P (floatAt fdict col) →
      P (floatAt (items.foldl (fun fdict item => fdict.insert item.1 item.2) fdict) col) := by
    intro items
    induction items with
    | nil => exact fun _ _ hfdict => hfdict
    | cons item items ih =>
      intro fdict hitems hfdict
      refine ih _ (fun item' hitem' => hitems item' (List.mem_cons_of_mem _ hitem')) ?_
      by_cases hcol : item.1 = col
      · have hitem := hitems item (List.mem_cons_self ..) hcol
        rw [floatAt, ← hcol, Finmap.lookup_insert]
        exact hitem
      · rw [floatAt, Finmap.lookup_insert_of_ne _ (Ne.symm hcol)]
        exact hfdict
  refine hfold items ∅ h ?_
  rw [floatAt, Finmap.lookup_empty]
  exact hdefault

theorem floatAt_dictOf {items : List (String × FeatureValue)} {col : String}
    (h : ∀ item ∈ items, item.1 = col → ∃ x, item.2.asFloat = .ok x) :
    ∃ x, floatAt (dictOf items) col = .ok x :=
  floatAt_dictOf_of (P := fun number => ∃ x, number = .ok x) ⟨_, rfl⟩ h

theorem floatAt_dictDisplay_of {P : Except PyException ExtFloat → Prop} (hdefault : P (.ok (.finite 0)))
    {items : List (String × Except PyException FeatureValue)} {fdict : FeatureDict}
    (hfdict : dictDisplay items = .ok fdict) {col : String}
    (h : ∀ item ∈ items, item.1 = col → ∀ v, item.2 = .ok v → P v.asFloat) : P (floatAt fdict col) := by
  obtain ⟨pairs, hpairs, rfl⟩ := exists_of_map_ok hfdict
  refine floatAt_dictOf_of hdefault fun pair hpair hcol => ?_
  obtain ⟨item, hitem, hpair'⟩ := exists_of_mem_mapM_ok hpairs hpair
  obtain ⟨v, hv, rfl⟩ := exists_of_map_ok hpair'
  exact h item hitem hcol v hv

/-- A column that the display computes as a float is one in the dictionary. -/
theorem floatAt_dictDisplay {items : List (String × Except PyException FeatureValue)}
    {fdict : FeatureDict} (hfdict : dictDisplay items = .ok fdict) {col : String}
    (h : ∀ item ∈ items, item.1 = col → ∀ v, item.2 = .ok v → ∃ x, v = floatValue x) :
    ∃ x, floatAt fdict col = .ok x := by
  refine floatAt_dictDisplay_of (P := fun number => ∃ x, number = .ok x) ⟨_, rfl⟩ hfdict ?_
  intro item hitem hcol v hv
  obtain ⟨x, rfl⟩ := h item hitem hcol v hv
  exact ⟨x, rfl⟩

theorem lookup_dictOf_congr {items items' : List (String × FeatureValue)} {col : String}
    (h : List.Forall₂ (fun x y => x.1 = y.1 ∧ (x.1 = col → x.2 = y.2)) items items') :
    (dictOf items).lookup col = (dictOf items').lookup col := by
  have hfold : ∀ fdict fdict' : FeatureDict, fdict.lookup col = fdict'.lookup col →
      (items.foldl (fun fdict item => fdict.insert item.1 item.2) fdict).lookup col =
        (items'.foldl (fun fdict item => fdict.insert item.1 item.2) fdict').lookup col := by
    induction h with
    | nil => exact fun _ _ hsame => hsame
    | @cons item _ _ _ hitem _ ih =>
      intro fdict fdict' hsame
      refine ih _ _ ?_
      obtain ⟨hkey, hvalue⟩ := hitem
      dsimp only
      rw [← hkey]
      by_cases hcol : col = item.1
      · rw [hcol, Finmap.lookup_insert, Finmap.lookup_insert, hvalue hcol.symm]
      · rw [Finmap.lookup_insert_of_ne _ hcol, Finmap.lookup_insert_of_ne _ hcol, hsame]
  exact hfold ∅ ∅ rfl

/-- What a display holds under `col` does not depend on what other columns are computed to. -/
theorem dictDisplay_lookup_congr {items items' : List (String × Except PyException FeatureValue)}
    {col : String}
    (h : List.Forall₂ (fun x y => x.1 = y.1 ∧
      (x.2 = y.2 ∨ x.1 ≠ col ∧ ∃ v w, x.2 = .ok v ∧ y.2 = .ok w)) items items') :
    (dictDisplay items).map (fun fdict => fdict.lookup col) =
      (dictDisplay items').map fun fdict => fdict.lookup col := by
  have hpairs : (∃ exc, items.mapM (fun item => item.2.map (Prod.mk item.1)) = .error exc ∧
        items'.mapM (fun item => item.2.map (Prod.mk item.1)) = .error exc) ∨
      ∃ pairs pairs', items.mapM (fun item => item.2.map (Prod.mk item.1)) = .ok pairs ∧
        items'.mapM (fun item => item.2.map (Prod.mk item.1)) = .ok pairs' ∧
        List.Forall₂ (fun x y : String × FeatureValue => x.1 = y.1 ∧ (x.1 = col → x.2 = y.2)) pairs
          pairs' := by
    induction h with
    | nil => exact .inr ⟨[], [], rfl, rfl, .nil⟩
    | @cons x y xs ys hitem _ ih =>
      obtain ⟨key, value⟩ := x
      obtain ⟨key', value'⟩ := y
      obtain ⟨rfl, hvalue⟩ := hitem
      simp only [List.mapM_cons]
      have hhead : (∃ exc, value = .error exc ∧ value' = .error exc) ∨
          ∃ v w, value = .ok v ∧ value' = .ok w ∧ (key = col → v = w) := by
        rcases hvalue with hsame | ⟨hne, v, w, hv, hw⟩
        · cases hsame
          cases value with
          | error exc => exact .inl ⟨exc, rfl, rfl⟩
          | ok v => exact .inr ⟨v, v, rfl, rfl, fun _ => rfl⟩
        · exact .inr ⟨v, w, hv, hw, fun heq => absurd heq hne⟩
      rcases hhead with ⟨exc, rfl, rfl⟩ | ⟨v, w, rfl, rfl, hsame⟩
      · exact .inl ⟨exc, rfl, rfl⟩
      · rcases ih with ⟨exc, hxs, hys⟩ | ⟨pairs, pairs', hxs, hys, hall⟩
        · exact .inl ⟨exc, by rw [hxs]; rfl, by rw [hys]; rfl⟩
        · exact .inr ⟨(key, v) :: pairs, (key, w) :: pairs', by rw [hxs]; rfl, by rw [hys]; rfl,
            .cons ⟨rfl, hsame⟩ hall⟩
  unfold dictDisplay
  rcases hpairs with ⟨exc, hxs, hys⟩ | ⟨pairs, pairs', hxs, hys, hall⟩
  · rw [hxs, hys]
  · rw [hxs, hys]
    exact congrArg Except.ok (lookup_dictOf_congr hall)

theorem eq_floatValue_of_map {number : Except PyException ExtFloat} {v : FeatureValue}
    (h : number.map floatValue = .ok v) : ∃ x, v = floatValue x := by
  obtain ⟨x, -, rfl⟩ := exists_of_map_ok h
  exact ⟨x, rfl⟩

theorem readable_defaultExtract {text : PyValue → String} {candidate : TaskCandidate}
    {ctx : QueueContext} {now : Instant} {fdict : FeatureDict}
    (h : defaultExtract text candidate ctx now = .ok fdict) : Readable fdict := by
  intro col hcol
  refine floatAt_dictDisplay h ?_
  simp only [List.forall_mem_cons, List.not_mem_nil, false_implies, implies_true, and_true]
  -- the two categorical columns are not numeric ones
  refine ⟨?_, ?_, ?_, ?_, ?_, ?_, ?_, ?_, ?_, ?_, ?_, ?_, ?_, ?_, ?_⟩ <;> intro heq v hv <;> subst heq
  · exact absurd hcol (show "task_type" ∉ numericCols by decide)
  · exact absurd hcol (show "user_tier" ∉ numericCols by decide)
  all_goals first | exact eq_floatValue_of_map hv | exact ⟨_, (Except.ok.inj hv).symm⟩

theorem readable_defaultExtractFromRecord {text : PyValue → String} {record : TaskRecord}
    {fdict : FeatureDict} (h : defaultExtractFromRecord text record = .ok fdict) :
    Readable fdict := by
  intro col hcol
  refine floatAt_dictDisplay h ?_
  simp only [List.forall_mem_cons, List.not_mem_nil, false_implies, implies_true, and_true]
  refine ⟨?_, ?_, ?_, ?_, ?_, ?_, ?_, ?_, ?_, ?_, ?_, ?_, ?_, ?_, ?_⟩ <;> intro heq v hv <;> subst heq
  · exact absurd hcol (show "task_type" ∉ numericCols by decide)
  · exact absurd hcol (show "user_tier" ∉ numericCols by decide)
  all_goals exact eq_floatValue_of_map hv

theorem asFloat_error {value : Option PyValue} {exc : PyException} (h : asFloat value = .error exc) :
    exc.isTypeOrValueError = false := by
  unfold asFloat at h
  split at h
  · cases h
  · split at h
    · cases h
    · next hkind =>
      cases h
      simpa using hkind

theorem proper_of_not_typeOrValueError {exc : PyException} (h : exc.isTypeOrValueError = false) :
    exc.isInsufficientGroupsError = false := by
  cases exc with
  | insufficientGroups => cases h
  | _ => rfl

theorem defaultExtractor_proper (text : PyValue → String) : (defaultExtractor text).Proper where
  conversion {_ _} hfdict col hcol {exc} hexc := by
    obtain ⟨x, hx⟩ := readable_defaultExtractFromRecord hfdict col hcol
    rw [hx] at hexc
    cases hexc
  extraction {record exc} h := by
    -- an error of the display is one of `float` or `_as_float`
    have hmap : ∀ {number : Except PyException ExtFloat}, number.map floatValue = .error exc →
        number = .error exc := by
      intro number hnumber
      cases number with
      | error exc' => exact congrArg Except.error (Except.error.inj hnumber)
      | ok x => cases hnumber
    have hint : ∀ {n : ℤ}, (floatOfInt n).map floatValue = .error exc →
        exc.isInsufficientGroupsError = false := by
      intro n hn
      rw [floatOfInt_error (hmap hn)]
      rfl
    have hvalue : ∀ {value : Option PyValue}, (asFloat value).map floatValue = .error exc →
        exc.isInsufficientGroupsError = false :=
      fun hv => proper_of_not_typeOrValueError (asFloat_error (hmap hv))
    obtain ⟨item, hitem, hexc⟩ := exists_of_dictDisplay_error h
    revert hexc
    revert item
    simp only [List.forall_mem_cons, List.not_mem_nil, false_implies, implies_true, and_true]
    refine ⟨?_, ?_, hint, hvalue, hvalue, hint, hint, hvalue, hvalue, hvalue, hvalue, hvalue, hvalue,
      hvalue, hvalue⟩ <;> (intro hok; cases hok)

/-- The integers under the given keys are in the range of a double. -/
def IntegersInRange (values : Dict String PyValue) (keys : List String) : Prop :=
  ∀ key ∈ keys, ∀ n, values.lookup key = some (.int n) → InDoubleRange n

theorem asFloat_ok_iff {value : Option PyValue} :
    (∃ x, asFloat value = .ok x) ↔ ∀ n, value = some (.int n) → InDoubleRange n := by
  unfold asFloat
  cases value with
  | none => simp [PyValue.toFloat, PyException.isTypeOrValueError]
  | some v =>
    cases v with
    | int n =>
      rw [show (∀ m, some (PyValue.int n) = some (.int m) → InDoubleRange m) ↔ InDoubleRange n by simp,
        ← floatOfInt_ok_iff]
      show (∃ x, (match floatOfInt n with
        | .ok x => Except.ok x
        | .error exc => if exc.isTypeOrValueError then .ok (.finite 0) else .error exc) = .ok x) ↔ _
      cases hn : floatOfInt n with
      | ok x => simp
      | error exc =>
        rw [floatOfInt_error hn]
        simp [PyException.isTypeOrValueError]
    | str s => cases htext : floatOfText s <;>
        simp [PyValue.toFloat, htext, PyException.isTypeOrValueError]
    | _ => simp [PyValue.toFloat, PyException.isTypeOrValueError]

theorem floatOfInt_hourOf (t : Instant) : floatOfInt (hourOf t) = .ok (hourOf t : ℚ) := by
  refine floatOfInt_small ?_
  rw [hourOf]
  omega

theorem floatOfInt_weekdayOf (t : Instant) : floatOfInt (weekdayOf t) = .ok (weekdayOf t : ℚ) := by
  refine floatOfInt_small ?_
  rw [weekdayOf]
  omega

/-- The numeric columns that `DefaultExtractor` takes from the metadata of a record. -/
def metadataCols : List String :=
  ["prompt_length", "retry_count", "queue_depth", "queue_depth_same_type", "worker_count_busy",
    "worker_count_idle", "recent_mean_ms_this_type", "recent_p95_ms_this_type",
    "recent_count_this_type", "time_since_last_retrain_s"]

def TaskRecord.InRange (record : TaskRecord) : Prop :=
  InDoubleRange record.payloadSize ∧ IntegersInRange record.metadata metadataCols

/-- `DefaultExtractor` is null-safe: of a record it needs no more than that its integers convert. -/
theorem defaultExtractor_reads_iff {text : PyValue → String} {record : TaskRecord} :
    (defaultExtractor text).Reads record ↔ record.InRange := by
  have hreads : (defaultExtractor text).Reads record ↔
      ∃ fdict, defaultExtractFromRecord text record = .ok fdict :=
    exists_congr fun fdict => and_iff_left_of_imp readable_defaultExtractFromRecord
  rw [hreads, defaultExtractFromRecord, dictDisplay_ok_iff, TaskRecord.InRange, IntegersInRange]
  simp only [List.forall_mem_cons, List.not_mem_nil, false_implies, implies_true, and_true,
    exists_map_ok_iff, floatOfInt_ok_iff, asFloat_ok_iff, metadataCols, Except.ok.injEq,
    exists_eq', true_and, floatOfInt_hourOf, floatOfInt_weekdayOf]

/-- The integers of a candidate and of its context convert. -/
structure CandidateInRange (candidate : TaskCandidate) (ctx : QueueContext) : Prop where
  features : IntegersInRange candidate.features ["payload_size", "prompt_length", "retry_count"]
  queueDepth : InDoubleRange ctx.queueDepth
  queueDepthSameType : InDoubleRange ctx.queueDepthSameType
  workerCountBusy : InDoubleRange ctx.workerCountBusy
  workerCountIdle : InDoubleRange ctx.workerCountIdle
  recentCountThisType : InDoubleRange ctx.recentCountThisType

theorem defaultExtract_ok (text : PyValue → String) {candidate : TaskCandidate} {ctx : QueueContext}
    (h : CandidateInRange candidate ctx) (now : Instant) :
    ∃ fdict, defaultExtract text candidate ctx now = .ok fdict := by
  obtain ⟨hfeatures, hdepth, hsame, hbusy, hidle, hcount⟩ := h
  rw [IntegersInRange] at hfeatures
  simp only [List.forall_mem_cons, List.not_mem_nil, false_implies, implies_true, and_true] at hfeatures
  rw [defaultExtract, dictDisplay_ok_iff]
  simp only [List.forall_mem_cons, List.not_mem_nil, false_implies, implies_true, and_true,
    exists_map_ok_iff, floatOfInt_ok_iff, asFloat_ok_iff, Except.ok.injEq, exists_eq', true_and,
    floatOfInt_hourOf, floatOfInt_weekdayOf]
  exact ⟨hfeatures.1, hfeatures.2.1, hfeatures.2.2, hdepth, hsame, hbusy, hidle, hcount⟩

/-! ## The columns of the first version -/

def legacyFeatures (taskType : String) (payloadSize hour : ℤ) (queueDepth : Option PyValue) :
    FeatureDict :=
  dictOf [
    ("task_type", .ofText taskType),
    ("payload_size", .ofPyValue (fun _ => "") (.int payloadSize)),
    ("hour_of_day", .ofPyValue (fun _ => "") (.int hour)),
    ("queue_depth", .ofPyValue (fun _ => "") (queueDepth.getD (.int 0)))]

def legacyExtractFeatures (taskType : String) (payloadSize : ℤ) (metadata : Dict String PyValue)
    (now : Instant) : FeatureDict :=
  legacyFeatures taskType payloadSize (hourOf now) (metadata.lookup "queue_depth")

def legacyExtractTrainingFeatures (record : TaskRecord) : FeatureDict :=
  legacyFeatures record.taskType record.payloadSize (hourOf record.recordedAt)
    (record.metadata.lookup "queue_depth")

end Chronoq.Ranker
