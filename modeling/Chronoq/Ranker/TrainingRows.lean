import Chronoq.Foundations.Grouping
import Chronoq.Ranker.FitRuns
import Chronoq.Ranker.Labels

/-! # The rows of the training data

The rows of `_prepare_data` are the records of the valid groups, each exactly once. The arrays that
go with them (labels, group sizes, `val_start`) are cut at the same places, and where no two records
of a group have the same `actual_ms` the order in which the records are stored makes no difference.

* `sortedMembers_perm`, `trainRows_perm`, `valRows_perm`: which records the rows are.
* `Partitions`: what the arrays of a call look like, beside the groups they were laid out from.
* `rowRecords_congr`: the rows of two orders of the same records. -/

namespace Chronoq.Ranker
open Foundations

set_option autoImplicit false

/-! ## Which records the rows are -/

theorem sortedMembers_perm (records : List TaskRecord) {gids : List String} (hnd : gids.Nodup) :
    ((gids.map (sortedMembers records)).flatten).Perm
      (records.filter fun r => groupOf r ∈ gids) := by
  refine List.Perm.trans ?_ (flatten_filter_perm groupOf hnd records)
  refine List.Perm.flatten_congr ?_
  rw [List.forall₂_map_left_iff, List.forall₂_map_right_iff]
  exact List.forall₂_same.mpr fun gid _ => List.perm_insertionSort _ _

/-- The rows before `val_start` are those of the records in the groups trained on. -/
theorem trainRows_perm (records : List TaskRecord) :
    ((rowRecords records).flatten.take (valStart records)).Perm
      ((assignTumblingGroupIds records).filter fun r => groupOf r ∈ trainGroups records) := by
  rw [valStart_eq, groupSizes_length, groupSizes, List.take_sum_flatten, rowRecords,
    validGroupIds_assign, ← List.map_take]
  exact sortedMembers_perm _ ((validGroupIds_nodup records).sublist (List.take_sublist _ _))

/-- The rows from `val_start` on are those of the records in the groups held out. -/
theorem valRows_perm (records : List TaskRecord) :
    ((rowRecords records).flatten.drop (valStart records)).Perm
      ((assignTumblingGroupIds records).filter fun r => groupOf r ∈ valGroups records) := by
  rw [valStart_eq, groupSizes_length, groupSizes, List.drop_sum_flatten, rowRecords,
    validGroupIds_assign, ← List.map_drop]
  exact sortedMembers_perm _ ((validGroupIds_nodup records).sublist (List.drop_sublist _ _))

/-- The rows are the records of the groups with at least two members. -/
theorem rows_perm (records : List TaskRecord) :
    (rowRecords records).flatten.Perm
      ((assignTumblingGroupIds records).filter fun r => 2 ≤ groupCount records (groupOf r)) := by
  have hperm := sortedMembers_perm (assignTumblingGroupIds records) (validGroupIds_nodup records)
  simp only [mem_validGroupIds] at hperm
  rw [rowRecords, validGroupIds_assign]
  exact hperm

theorem groupId_of_mem_assign {records : List TaskRecord} {r : TaskRecord}
    (h : r ∈ assignTumblingGroupIds records) : r.groupId = some (groupOf r) := by
  obtain ⟨r', -, rfl⟩ := List.mem_map.mp h
  rfl

theorem groupId_of_mem_sortedMembers {records : List TaskRecord} {gid : String} {r : TaskRecord}
    (h : r ∈ sortedMembers (assignTumblingGroupIds records) gid) : r.groupId = some gid := by
  obtain ⟨hmem, hgid⟩ := List.mem_filter.mp ((List.mem_insertionSort _).mp h)
  rw [groupId_of_mem_assign hmem, decide_eq_true_eq.mp hgid]

/-! ## The arrays -/

/-- The rows of `d`, one for each record of `groups`, are laid out group after group with the labels
and the sizes beside them; `gids` are the ids of the groups. -/
structure Partitions (extractor : FeatureExtractor) (encoder : Encoder) (records : List TaskRecord)
    (gids : List String) (groups : List (List TaskRecord)) (d : Prepared) : Prop where
  valid : ∀ gid, gid ∈ gids ↔ 2 ≤ groupCount records gid
  groupOrder : gids.Pairwise (· < ·)
  members : List.Forall₂ (fun gid group => ∀ r ∈ group, r.groupId = some gid) gids groups
  eachOnce : groups.flatten.Perm
    ((assignTumblingGroupIds records).filter fun r => 2 ≤ groupCount records (groupOf r))
  rowOrder : ∀ group ∈ groups, group.Pairwise fun (a b : TaskRecord) => a.actualMs ≤ b.actualMs
  rows : List.Forall₂ (fun (r : TaskRecord) row => ∃ fdict,
    extractor.extractFromRecord r = .ok fdict ∧ encoder.row fdict = .ok row) groups.flatten d.xMat
  labels : d.y = (groups.map fun group => groupLabels group.length).flatten
  oneLabel : d.y.length = d.xMat.length
  sizes : d.groupsTrain ++ d.groupsVal = groups.map List.length
  atLeastTwo : ∀ n ∈ d.groupsTrain ++ d.groupsVal, 2 ≤ n
  trainRows : d.groupsTrain.sum = d.valStart
  allRows : d.groupsTrain.sum + d.groupsVal.sum = d.y.length
  heldOut : d.groupsVal.length = if groups.length < 10 then 0 else max 1 (groups.length / 10)
  trains : groups ≠ [] → d.groupsTrain ≠ []
  clearCut : ∀ r ∈ groups.flatten.take d.valStart, ∀ r' ∈ groups.flatten.drop d.valStart,
    r.groupId ≠ r'.groupId

section
variable {extractor : FeatureExtractor} {encoder : Encoder} {records : List TaskRecord}

theorem rowRecords_members (records : List TaskRecord) :
    List.Forall₂ (fun gid group => ∀ r ∈ group, r.groupId = some gid) (validGroupIds records)
      (rowRecords records) := by
  rw [rowRecords, validGroupIds_assign, List.forall₂_map_right_iff]
  exact List.forall₂_same.mpr fun gid _ r hr => groupId_of_mem_sortedMembers hr

theorem rowRecords_length (records : List TaskRecord) :
    (rowRecords records).length = (validGroupIds records).length := by
  rw [rowRecords, validGroupIds_assign, List.length_map]

theorem rows_forall₂ {fdicts : List FeatureDict} {x : List Row}
    (hrows : featureRows extractor records = .ok fdicts) (hx : encoder.rows fdicts = .ok x) :
    List.Forall₂ (fun r row => ∃ fdict, extractor.extractFromRecord r = .ok fdict ∧
      encoder.row fdict = .ok row) (rowRecords records).flatten x := by
  have hextract := mapM_eq_ok_iff.mp hrows
  have hmatrix := mapM_eq_ok_iff.mp hx
  generalize (rowRecords records).flatten = rs at hextract
  clear hrows hx
  induction hextract generalizing x with
  | nil =>
    cases hmatrix
    exact .nil
  | cons hr _ ih =>
    cases hmatrix with
    | cons hrow hrest => exact .cons ⟨_, hr, hrow⟩ (ih hrest)

/-- The groups trained on and those held out have no id in common. -/
theorem trainGroups_disjoint (records : List TaskRecord) :
    ∀ gid ∈ trainGroups records, gid ∉ valGroups records := by
  have hnd := validGroupIds_nodup records
  rw [← List.take_append_drop (nTrain (validGroupIds records).length) (validGroupIds records)] at hnd
  exact fun gid htrain hval => List.disjoint_of_nodup_append hnd htrain hval

/-- No group has rows on both sides of `val_start`. -/
theorem groupId_ne_of_split {r r' : TaskRecord}
    (hr : r ∈ (rowRecords records).flatten.take (valStart records))
    (hr' : r' ∈ (rowRecords records).flatten.drop (valStart records)) : r.groupId ≠ r'.groupId := by
  intro hsame
  have htrain := List.mem_filter.mp ((trainRows_perm records).mem_iff.mp hr)
  have hval := List.mem_filter.mp ((valRows_perm records).mem_iff.mp hr')
  rw [groupId_of_mem_assign htrain.1, groupId_of_mem_assign hval.1, Option.some.injEq] at hsame
  refine trainGroups_disjoint records (groupOf r) (decide_eq_true_eq.mp htrain.2) ?_
  rw [hsame]
  exact decide_eq_true_eq.mp hval.2

theorem assemble_valStart (records : List TaskRecord) (x : List Row) :
    (assemble records x).valStart = valStart records := rfl

theorem assemble_groupsTrain (records : List TaskRecord) (x : List Row) :
    (assemble records x).groupsTrain =
      (groupSizes records).take (nTrain (groupSizes records).length) := rfl

theorem partitions_assemble {fdicts : List FeatureDict} {x : List Row}
    (hrows : featureRows extractor records = .ok fdicts) (hx : encoder.rows fdicts = .ok x) :
    Partitions extractor encoder records (validGroupIds records) (rowRecords records)
      (assemble records x) where
  valid := fun gid => mem_validGroupIds
  groupOrder := validGroupIds_sorted records
  members := rowRecords_members records
  eachOnce := rows_perm records
  rowOrder := fun group hgroup => ascending_of_mem_rowRecords hgroup
  rows := rows_forall₂ hrows hx
  labels := by
    show rowLabels records = _
    rw [rowLabels, groupSizes, List.map_map]
    rfl
  oneLabel := by
    show (rowLabels records).length = x.length
    rw [rowLabels_length, rows_length hrows hx]
  sizes := List.take_append_drop _ _
  atLeastTwo := by
    intro n hn
    have hmem : n ∈ groupSizes records := by
      rwa [← List.take_append_drop (nTrain (groupSizes records).length) (groupSizes records)]
    exact two_le_of_mem_groupSizes hmem
  trainRows := by rw [assemble_valStart, assemble_groupsTrain, valStart_eq]
  allRows := by
    show _ = (rowLabels records).length
    rw [rowLabels_length]
    exact List.sum_take_add_sum_drop _ _
  heldOut := by
    rw [assemble_groupsVal_length, rowRecords_length, nVal]
    split <;> split <;> omega
  trains := by
    intro hne
    have hpos := nTrain_pos (List.length_pos_iff.mpr hne)
    rw [← List.length_pos_iff, assemble_groupsTrain, List.length_take, groupSizes_length, ← rowRecords_length]
    exact lt_min hpos (List.length_pos_iff.mpr hne)
  clearCut := by
    rw [assemble_valStart]
    exact fun r hr r' hr' => groupId_ne_of_split hr hr'

end

/-- The default extractor prepares a batch whose valid groups have no integer that is too large. -/
theorem prepares_default_iff (text : PyValue → String) (records : List TaskRecord) :
    Prepares (defaultExtractor text) records ↔
      ∀ r ∈ records, 2 ≤ groupCount records (groupOf r) → r.InRange := by
  have hmem : ∀ r, r ∈ (rowRecords records).flatten ↔
      r ∈ assignTumblingGroupIds records ∧ 2 ≤ groupCount records (groupOf r) := by
    intro r
    rw [(rows_perm records).mem_iff, List.mem_filter, decide_eq_true_eq]
  unfold Prepares FeatureExtractor.ReadsAll
  simp only [hmem, defaultExtractor_reads_iff, assignTumblingGroupIds, and_imp, List.forall_mem_map]
  exact Iff.rfl

/-- A record whose payload size is beyond the range of a double. -/
def hugeRecord (actualMs : ℚ) : TaskRecord :=
  { sampleRecord "resize" "jobs" actualMs with payloadSize := 10 ^ 400 }

/-- Within a group no two records took the same time. -/
def TimesDistinct (records : List TaskRecord) : Prop :=
  records.Pairwise fun a b => groupOf a = groupOf b → a.actualMs ≠ b.actualMs

theorem groupCount_congr {records records' : List TaskRecord} (h : records.Perm records')
    (gid : String) : groupCount records gid = groupCount records' gid :=
  h.countP_eq _

/-- The group ids are sorted, so their first occurrences are forgotten. -/
theorem validGroupIds_congr {records records' : List TaskRecord} (h : records.Perm records') :
    validGroupIds records = validGroupIds records' := by
  refine List.Perm.eq_of_pairwise (fun _ _ _ _ hlt hlt' => absurd hlt' hlt.not_gt)
    (validGroupIds_sorted records) (validGroupIds_sorted records') ?_
  rw [List.perm_ext_iff_of_nodup (validGroupIds_nodup records) (validGroupIds_nodup records')]
  intro gid
  rw [mem_validGroupIds, mem_validGroupIds, groupCount_congr h]

/-- Two records of one group with the same time are one and the same. -/
theorem eq_of_actualMs_eq {records : List TaskRecord} (hdist : TimesDistinct records)
    {a b : TaskRecord} (ha : a ∈ records) (hb : b ∈ records) (hgid : groupOf a = groupOf b)
    (hms : a.actualMs = b.actualMs) : a = b := by
  by_contra hne
  have hsymm : Std.Symm fun (a b : TaskRecord) => groupOf a = groupOf b → a.actualMs ≠ b.actualMs :=
    ⟨fun _ _ h hgid => (h hgid.symm).symm⟩
  exact hdist.forall ha hb hne hgid hms

theorem sortedMembers_congr {records records' : List TaskRecord} (h : records.Perm records')
    (hdist : TimesDistinct records) (gid : String) :
    sortedMembers records gid = sortedMembers records' gid := by
  refine List.Perm.eq_of_pairwise ?_ (sortedMembers_ascending records gid)
    (sortedMembers_ascending records' gid) ?_
  · intro a b ha hb hle hle'
    obtain ⟨ha, hgid⟩ := List.mem_filter.mp ((List.mem_insertionSort _).mp ha)
    obtain ⟨hb, hgid'⟩ := List.mem_filter.mp ((List.mem_insertionSort _).mp hb)
    rw [decide_eq_true_eq] at hgid hgid'
    exact eq_of_actualMs_eq hdist ha (h.mem_iff.mpr hb) (hgid.trans hgid'.symm)
      (le_antisymm hle hle')
  · exact (List.perm_insertionSort _ _).trans
      ((h.filter _).trans (List.perm_insertionSort _ _).symm)

theorem timesDistinct_assign {records : List TaskRecord} (hdist : TimesDistinct records) :
    TimesDistinct (assignTumblingGroupIds records) := by
  rw [TimesDistinct, assignTumblingGroupIds, List.pairwise_map]
  exact hdist

/-- The rows of a batch are the same for every order of its records. -/
theorem rowRecords_congr {records records' : List TaskRecord} (h : records.Perm records')
    (hdist : TimesDistinct records) : rowRecords records = rowRecords records' := by
  have hassign : (assignTumblingGroupIds records).Perm (assignTumblingGroupIds records') := h.map _
  simp only [rowRecords, validGroupIds_congr hassign]
  exact List.map_congr_left fun gid _ =>
    sortedMembers_congr hassign (timesDistinct_assign hdist) gid

/-- A call looks at the records through their rows only. -/
theorem prepareData_congr {records records' : List TaskRecord}
    (h : rowRecords records = rowRecords records') (extractor : FeatureExtractor)
    (encoder : Encoder) (rebuildEncoder : Bool) :
    prepareData extractor encoder records rebuildEncoder =
      prepareData extractor encoder records' rebuildEncoder := by
  have hsizes : groupSizes records = groupSizes records' := congrArg (List.map List.length) h
  have hassemble : assemble records = assemble records' := by
    funext x
    simp only [assemble, rowLabels, valStart, hsizes]
  simp only [prepareData, featureRows, h, hassemble]

theorem prepareData_independent_of_order {records records' : List TaskRecord}
    (h : records.Perm records') (hdist : TimesDistinct records) (extractor : FeatureExtractor)
    (encoder : Encoder) :
    prepareData extractor encoder records true = prepareData extractor encoder records' true :=
  prepareData_congr (rowRecords_congr h hdist) extractor encoder true

theorem prepareData_independent_of_order_pair :
    prepareData (defaultExtractor fun _ => "") Encoder.fresh
        [sampleRecord "resize" "jobs" 2, sampleRecord "scale" "jobs" 1] true =
      prepareData (defaultExtractor fun _ => "") Encoder.fresh
        [sampleRecord "scale" "jobs" 1, sampleRecord "resize" "jobs" 2] true :=
  prepareData_independent_of_order (List.Perm.swap _ _ _)
    (List.pairwise_pair.mpr fun _ => by decide) _ _

end Chronoq.Ranker
