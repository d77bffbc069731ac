import Chronoq.Foundations.Fallible
import Chronoq.Ranker.Encoder

/-! # `_prepare_data`: groups, labels and the validation split

Records are grouped by their explicit `group_id` or by the 60s window of their timestamp; a group of
at least two records is valid. Valid groups are laid out one after another in the order of their
ids, each in ascending `actual_ms`, and the last tenth of the groups is held out for validation.

* `groupOf`: the group id that `_assign_tumbling_group_ids` leaves in a record.
* `validGroupIds`, `sortedMembers`: the outer and the inner order of the rows.
* `nVal`, `nTrain`: how many of the groups are held out and how many are trained on.
* `prepareData`: the whole of `_prepare_data`, with the encoder it leaves behind.

Appending records never invalidates a group (`validGroupIds_subset_of_extends`). -/

namespace Chronoq.Ranker
open Foundations

set_option autoImplicit false

/-! ## Groups -/

def windowSeconds : ℤ := 60

/-- `int(ts // _WINDOW_SECONDS) * _WINDOW_SECONDS`, for a timestamp in microseconds. -/
def windowBucket (t : Instant) : ℤ := t / (1000000 * windowSeconds) * windowSeconds

def groupOf (r : TaskRecord) : String :=
  r.groupId.getD ("window_" ++ toString (windowBucket r.recordedAt))

def assignTumblingGroupIds (records : List TaskRecord) : List TaskRecord :=
  records.map fun r => { r with groupId := some (groupOf r) }

def groupCount (records : List TaskRecord) (gid : String) : ℕ :=
  records.countP fun r => groupOf r = gid

/-- `sorted(valid_groups)` -/
def validGroupIds (records : List TaskRecord) : List String :=
  ((records.map groupOf).dedup.filter fun gid => 2 ≤ groupCount records gid).insertionSort (· ≤ ·)

/-- `sorted(valid_groups[gid], key=lambda r: r.actual_ms)` -/
def sortedMembers (records : List TaskRecord) (gid : String) : List TaskRecord :=
  (records.filter fun r => groupOf r = gid).insertionSort fun a b => a.actualMs ≤ b.actualMs

theorem mem_validGroupIds {records : List TaskRecord} {gid : String} :
    gid ∈ validGroupIds records ↔ 2 ≤ groupCount records gid := by
  rw [validGroupIds, List.mem_insertionSort, List.mem_filter, List.mem_dedup, List.mem_map,
    decide_eq_true_eq]
  constructor
  · exact fun h => h.2
  · intro h
    refine ⟨?_, h⟩
    obtain ⟨r, hr, hgid⟩ := List.countP_pos_iff.mp (lt_of_lt_of_le (by omega) h)
    exact ⟨r, hr, decide_eq_true_eq.mp hgid⟩

theorem validGroupIds_nodup (records : List TaskRecord) : (validGroupIds records).Nodup := by
  have hperm := List.perm_insertionSort (· ≤ ·)
    ((records.map groupOf).dedup.filter fun gid => 2 ≤ groupCount records gid)
  exact hperm.nodup_iff.mpr ((List.nodup_dedup _).filter _)

theorem validGroupIds_sorted (records : List TaskRecord) :
    (validGroupIds records).Pairwise (· < ·) := by
  have hle : (validGroupIds records).Pairwise (· ≤ ·) := List.pairwise_insertionSort _ _
  exact hle.imp₂ (fun _ _ h hne => lt_of_le_of_ne h hne) (validGroupIds_nodup records)

theorem groupCount_append (records more : List TaskRecord) (gid : String) :
    groupCount (records ++ more) gid = groupCount records gid + groupCount more gid :=
  List.countP_append

theorem groupCount_le_of_extends {records records' : List TaskRecord} (h : records <+: records')
    (gid : String) : groupCount records gid ≤ groupCount records' gid := by
  obtain ⟨more, rfl⟩ := h
  rw [groupCount_append]
  omega

/-- A group once valid stays valid when records are appended. -/
theorem validGroupIds_subset_of_extends {records records' : List TaskRecord}
    (h : records <+: records') : validGroupIds records ⊆ validGroupIds records' := by
  intro gid hgid
  rw [mem_validGroupIds] at hgid ⊢
  exact hgid.trans (groupCount_le_of_extends h gid)

theorem validGroupIds_length_le_of_extends {records records' : List TaskRecord}
    (h : records <+: records') : (validGroupIds records).length ≤ (validGroupIds records').length :=
  ((validGroupIds_nodup records).subperm (validGroupIds_subset_of_extends h)).length_le

/-! ## Labels -/

def labelMax : ℕ := 9

/-- The label of position `i` in a group of `n` records in ascending `actual_ms`. -/
def labelAt (n i : ℕ) : ℤ :=
  if n ≤ labelMax + 1 then (n : ℤ) - 1 - i
  else roundHalfEven (((n : ℚ) - 1 - i) / ((n : ℚ) - 1) * labelMax)

def groupLabels (n : ℕ) : List ℤ := (List.range n).map (labelAt n)

/-! ## The split -/

def nVal (nGroups : ℕ) : ℕ := if 10 ≤ nGroups then max 1 (nGroups / 10) else 0

def nTrain (nGroups : ℕ) : ℕ := nGroups - nVal nGroups

theorem nVal_le (n : ℕ) : nVal n ≤ n := by
  unfold nVal
  split <;> omega

theorem nTrain_add_nVal (n : ℕ) : nTrain n + nVal n = n := by
  have := nVal_le n
  unfold nTrain
  omega

theorem nTrain_pos {n : ℕ} (h : 0 < n) : 0 < nTrain n := by
  unfold nTrain nVal
  split <;> omega

def trainGroups (records : List TaskRecord) : List String :=
  (validGroupIds records).take (nTrain (validGroupIds records).length)

def valGroups (records : List TaskRecord) : List String :=
  (validGroupIds records).drop (nTrain (validGroupIds records).length)

/-! ## The prepared data -/

structure Prepared where
  xMat : List Row
  y : List ℤ
  groupsTrain : List ℕ
  groupsVal : List ℕ
  valStart : ℕ

/-- The records of the rows of each group, in row order. -/
def rowRecords (records : List TaskRecord) : List (List TaskRecord) :=
  let enriched := assignTumblingGroupIds records
  (validGroupIds enriched).map (sortedMembers enriched)

def groupSizes (records : List TaskRecord) : List ℕ := (rowRecords records).map List.length

def featureRows (extractor : FeatureExtractor) (records : List TaskRecord) :
    Except PyException (List FeatureDict) :=
  (rowRecords records).flatten.mapM extractor.extractFromRecord

def rowLabels (records : List TaskRecord) : List ℤ :=
  ((groupSizes records).map groupLabels).flatten

def valStart (records : List TaskRecord) : ℕ :=
  let sizes := groupSizes records
  if 0 < nTrain sizes.length then (sizes.take (nTrain sizes.length)).sum
  else (rowLabels records).length

def assemble (records : List TaskRecord) (xMat : List Row) : Prepared :=
  let sizes := groupSizes records
  { xMat := xMat
    y := rowLabels records
    groupsTrain := sizes.take (nTrain sizes.length)
    groupsVal := sizes.drop (nTrain sizes.length)
    valStart := valStart records }

def prepareData (extractor : FeatureExtractor) (encoder : Encoder) (records : List TaskRecord)
    (rebuildEncoder : Bool) : Encoder × Except PyException Prepared :=
  match featureRows extractor records with
  | .error exc => (encoder, .error exc)
  | .ok fdicts =>
    let (encoder, xMat) := encoder.buildMatrix fdicts rebuildEncoder
    (encoder, xMat.map (assemble records))

namespace Prepared

def xTrain (d : Prepared) : List Row := d.xMat.take d.valStart
def yTrain (d : Prepared) : List ℤ := d.y.take d.valStart
def xVal (d : Prepared) : List Row := d.xMat.drop d.valStart
def yVal (d : Prepared) : List ℤ := d.y.drop d.valStart

end Prepared

/-! ## What the split is made of -/

@[simp] theorem groupOf_assign (r : TaskRecord) :
    groupOf { r with groupId := some (groupOf r) } = groupOf r := rfl

theorem map_groupOf_assign (records : List TaskRecord) :
    (assignTumblingGroupIds records).map groupOf = records.map groupOf := by
  rw [assignTumblingGroupIds, List.map_map]
  rfl

theorem groupCount_assign (records : List TaskRecord) (gid : String) :
    groupCount (assignTumblingGroupIds records) gid = groupCount records gid := by
  rw [groupCount, assignTumblingGroupIds, List.countP_map]
  rfl

@[simp] theorem validGroupIds_assign (records : List TaskRecord) :
    validGroupIds (assignTumblingGroupIds records) = validGroupIds records := by
  simp only [validGroupIds, map_groupOf_assign, groupCount_assign]

@[simp] theorem groupSizes_length (records : List TaskRecord) :
    (groupSizes records).length = (validGroupIds records).length := by
  simp [groupSizes, rowRecords]

theorem groupSizes_eq (records : List TaskRecord) :
    groupSizes records = (validGroupIds records).map (groupCount records) := by
  simp only [groupSizes, rowRecords, validGroupIds_assign, List.map_map]
  refine List.map_congr_left fun gid _ => ?_
  rw [Function.comp_apply, sortedMembers, List.length_insertionSort, ← List.countP_eq_length_filter]
  exact groupCount_assign records gid

theorem two_le_of_mem_groupSizes {records : List TaskRecord} {n : ℕ}
    (h : n ∈ groupSizes records) : 2 ≤ n := by
  rw [groupSizes_eq, List.mem_map] at h
  obtain ⟨gid, hgid, rfl⟩ := h
  exact mem_validGroupIds.mp hgid

theorem rowLabels_length (records : List TaskRecord) :
    (rowLabels records).length = (groupSizes records).sum := by
  rw [rowLabels, List.length_flatten, List.map_map]
  congr 1
  conv_rhs => rw [← List.map_id (groupSizes records)]
  exact List.map_congr_left fun n _ => by simp [groupLabels]

/-- The first validation row is the one after all rows of the groups trained on. -/
theorem valStart_eq (records : List TaskRecord) :
    valStart records = ((groupSizes records).take (nTrain (groupSizes records).length)).sum := by
  unfold valStart
  dsimp only
  split
  · rfl
  · next hzero =>
    have hnil : groupSizes records = [] := by
      by_contra hne
      exact hzero (nTrain_pos (List.length_pos_iff.mpr hne))
    rw [rowLabels_length, hnil]
    rfl

theorem featureRows_length {extractor : FeatureExtractor} {records : List TaskRecord}
    {fdicts : List FeatureDict} (h : featureRows extractor records = .ok fdicts) :
    fdicts.length = (groupSizes records).sum := by
  rw [length_of_mapM_ok h, List.length_flatten]
  rfl

theorem assemble_groups (records : List TaskRecord) (x : List Row) :
    (assemble records x).groupsTrain.length + (assemble records x).groupsVal.length =
      (validGroupIds records).length := by
  have h := nTrain_add_nVal (groupSizes records).length
  rw [← groupSizes_length records]
  simp only [assemble, List.length_take, List.length_drop]
  omega

theorem assemble_groupsVal_length (records : List TaskRecord) (x : List Row) :
    (assemble records x).groupsVal.length = nVal (validGroupIds records).length := by
  have h := nTrain_add_nVal (groupSizes records).length
  rw [← groupSizes_length records]
  simp only [assemble, List.length_drop]
  omega

theorem assemble_xVal_length (records : List TaskRecord) (x : List Row) :
    (assemble records x).xVal.length = x.length - valStart records := List.length_drop

/-- With ten valid groups there are at least two rows to validate on. -/
theorem two_le_xVal_length {records : List TaskRecord} {x : List Row}
    (hx : x.length = (groupSizes records).sum) (hten : 10 ≤ (validGroupIds records).length) :
    2 ≤ (assemble records x).xVal.length := by
  have hsplit := List.sum_take_add_sum_drop (groupSizes records)
    (nTrain (groupSizes records).length)
  have hval : (assemble records x).groupsVal ≠ [] := by
    rw [← List.length_pos_iff, assemble_groupsVal_length]
    unfold nVal
    split <;> omega
  obtain ⟨n, rest, hn⟩ := List.exists_cons_of_ne_nil hval
  have hmem : n ∈ groupSizes records := by
    have hdrop : n ∈ (assemble records x).groupsVal := by
      rw [hn]
      exact List.mem_cons_self ..
    exact List.mem_of_mem_drop hdrop
  have htwo : 2 ≤ n := two_le_of_mem_groupSizes hmem
  have hsum : n ≤ ((assemble records x).groupsVal).sum := by
    rw [hn, List.sum_cons]
    omega
  have hlen : (assemble records x).xVal.length = ((assemble records x).groupsVal).sum := by
    rw [assemble_xVal_length, hx, valStart_eq]
    simp only [assemble]
    omega
  omega

/-! ## The ways `prepareData` ends -/

section Ends
variable {extractor : FeatureExtractor} {encoder : Encoder} {records : List TaskRecord}
  {rebuild : Bool}

theorem prepareData_error {exc : PyException} (h : featureRows extractor records = .error exc) :
    prepareData extractor encoder records rebuild = (encoder, .error exc) := by
  rw [prepareData, h]

theorem prepareData_ok {fdicts : List FeatureDict} (h : featureRows extractor records = .ok fdicts) :
    prepareData extractor encoder records rebuild =
      ((if rebuild then Encoder.fresh else encoder).extend fdicts,
        (((if rebuild then Encoder.fresh else encoder).extend fdicts).rows fdicts).map
          (assemble records)) := by
  rw [prepareData, h]
  rfl

/-- What a call returns is laid out from the records, with the rows of their feature dictionaries. -/
theorem exists_of_prepareData_ok {d : Prepared}
    (h : (prepareData extractor encoder records rebuild).2 = .ok d) :
    ∃ fdicts x, featureRows extractor records = .ok fdicts ∧
      (prepareData extractor encoder records rebuild).1.rows fdicts = .ok x ∧
      d = assemble records x := by
  cases hrows : featureRows extractor records with
  | error exc =>
    rw [prepareData_error hrows] at h
    cases h
  | ok fdicts =>
    rw [prepareData_ok hrows] at h ⊢
    obtain ⟨x, hx, rfl⟩ := exists_of_map_ok h
    exact ⟨fdicts, x, rfl, hx, rfl⟩

theorem rows_length {fdicts : List FeatureDict} {x : List Row}
    (hrows : featureRows extractor records = .ok fdicts) (hx : encoder.rows fdicts = .ok x) :
    x.length = (groupSizes records).sum := by
  rw [length_of_mapM_ok hx, featureRows_length hrows]

/-- A row is laid out for a record with its group filled in. -/
theorem exists_of_mem_rowRecords {r : TaskRecord} (h : r ∈ (rowRecords records).flatten) :
    ∃ r₀ ∈ records, r = { r₀ with groupId := some (groupOf r₀) } := by
  obtain ⟨group, hgroup, hr⟩ := List.mem_flatten.mp h
  obtain ⟨gid, -, rfl⟩ := List.mem_map.mp hgroup
  obtain ⟨hmem, -⟩ := List.mem_filter.mp ((List.mem_insertionSort _).mp hr)
  obtain ⟨r₀, hr₀, rfl⟩ := List.mem_map.mp hmem
  exact ⟨r₀, hr₀, rfl⟩

/-- The records of the valid groups are all read. -/
def Prepares (extractor : FeatureExtractor) (records : List TaskRecord) : Prop :=
  extractor.ReadsAll (rowRecords records).flatten

/-- Neither the extraction nor the matrix fails if the extractor gives numbers for every record of a
valid group. -/
theorem prepareData_extracts (h : Prepares extractor records) :
    ∃ fdicts, featureRows extractor records = .ok fdicts ∧
      ∀ encoder : Encoder, ∃ x, encoder.rows fdicts = .ok x := by
  obtain ⟨fdicts, hrows⟩ := exists_mapM_ok (l := (rowRecords records).flatten)
    (f := extractor.extractFromRecord) fun r hr => (h r hr).imp fun _ hfdict => hfdict.1
  refine ⟨fdicts, hrows, fun encoder => exists_mapM_ok fun fdict hmem => ?_⟩
  obtain ⟨r, hr, hfdict⟩ := exists_of_mem_mapM_ok hrows hmem
  obtain ⟨fdict', hfdict', hfloat⟩ := h r hr
  rw [hfdict] at hfdict'
  cases hfdict'
  exact Encoder.exists_row_ok_iff.mpr hfloat

/-- A batch whose rows have been built was read. -/
theorem prepares_of_rows {fdicts : List FeatureDict} {x : List Row}
    (hrows : featureRows extractor records = .ok fdicts) (hx : encoder.rows fdicts = .ok x) :
    Prepares extractor records := by
  intro r hr
  obtain ⟨fdict, hmem, hfdict⟩ := exists_mem_of_mapM_ok hrows hr
  obtain ⟨row, -, hrow⟩ := exists_mem_of_mapM_ok hx hmem
  exact ⟨fdict, hfdict, Encoder.exists_row_ok_iff.mp ⟨row, hrow⟩⟩

theorem prepareData_ok_iff :
    (∃ d, (prepareData extractor encoder records rebuild).2 = .ok d) ↔
      Prepares extractor records := by
  constructor
  · rintro ⟨d, hd⟩
    obtain ⟨fdicts, x, hrows, hx, -⟩ := exists_of_prepareData_ok hd
    exact prepares_of_rows hrows hx
  · intro h
    obtain ⟨fdicts, hrows, hmatrix⟩ := prepareData_extracts h
    obtain ⟨x, hx⟩ := hmatrix ((if rebuild then Encoder.fresh else encoder).extend fdicts)
    refine ⟨assemble records x, ?_⟩
    rw [prepareData_ok hrows]
    show Except.map (assemble records) (Encoder.rows _ fdicts) = _
    rw [hx]
    rfl

end Ends

end Chronoq.Ranker
